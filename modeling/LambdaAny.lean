import LambdaAny.Main
import LambdaAny.Proofs.TypeSoundness
import LambdaAny.Proofs.Grammar
import LambdaAny.Proofs.ParserSoundness
import LambdaAny.Proofs.ParserCompleteness
import LambdaAny.Proofs.Lexing
import LambdaAny.Proofs.Rendering
import LambdaAny.Proofs.RoundTrip
import LambdaAny.Proofs.Substitution
import LambdaAny.Proofs.SubstitutionAgreement
import LambdaAny.Proofs.Normalization
import LambdaAny.Proofs.FreeNames
import LambdaAny.Proofs.ScopeSafety
import LambdaAny.Proofs.LexerTiling
import LambdaAny.Proofs.PredictiveReading
import LambdaAny.Proofs.ViablePrefix
import LambdaAny.Proofs.ExactTyping
import LambdaAny.Proofs.FirstTypeError
import LambdaAny.Proofs.ScopeAgreement
import LambdaAny.Proofs.RecursiveNames
import LambdaAny.Proofs.RelevantBindings
import LambdaAny.Proofs.Absorption
import LambdaAny.Proofs.Marks
import LambdaAny.Proofs.ParameterWeakening
import LambdaAny.Proofs.Annotations
import LambdaAny.Proofs.ExactArithmetic
import LambdaAny.Proofs.Seams
import LambdaAny.Proofs.PrintedTokens
import LambdaAny.Proofs.PlacelessReading
import LambdaAny.Proofs.LineCounting
import LambdaAny.Proofs.OneLineLayout
import LambdaAny.Proofs.ErrorPlaces
import LambdaAny.Proofs.SessionLines
import LambdaAny.Proofs.CallLayers
import LambdaAny.Proofs.PrintedTypes
import LambdaAny.Proofs.ReadingProgress
