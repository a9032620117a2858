import LineLisp.Main
import LineLisp.Proofs.ArgumentBinding
import LineLisp.Proofs.Decompilation
import LineLisp.Proofs.ExactSums
import LineLisp.Proofs.FirstMalformed
import LineLisp.Proofs.FrameEffect
import LineLisp.Proofs.IndependentSessions
import LineLisp.Proofs.JoinedText
import LineLisp.Proofs.KindOrder
import LineLisp.Proofs.LexicalScope
import LineLisp.Proofs.LineLoop
import LineLisp.Proofs.ParameterRenaming
import LineLisp.Proofs.RoundTrip
import LineLisp.Proofs.ScopeSafety
import LineLisp.Proofs.ShellAgreement
import LineLisp.Proofs.Slices
import LineLisp.Proofs.StoreHistory
import LineLisp.Proofs.Tokenization
import LineLisp.Proofs.TraceAndColour
import LineLisp.Proofs.UnreadName
