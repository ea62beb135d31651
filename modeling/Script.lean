import Script.CommandLine
import Script.Main
import Script.Proofs.Eval.Called
import Script.Proofs.Eval.Depth
import Script.Proofs.Eval.Error
import Script.Proofs.Eval.Returned
import Script.Proofs.Eval.Scope
import Script.Proofs.Parse.Isolated
import Script.Proofs.Parse.Marks
import Script.Proofs.Token.Lossless
import Script.Proofs.Parse.Located
import Script.Proofs.Parse.Charged
import Script.Proofs.Eval.Nested
import Script.Proofs.Eval.Renamed
import Script.Proofs.Eval.Printed
import Script.Proofs.Eval.Sequence
import Script.Proofs.Session.Joined
import Script.Proofs.Session.Transported
import Script.Proofs.Session.Transcript
import Script.Proofs.Parse.Enclosed
import Script.Proofs.Parse.Body
import Script.Proofs.Parse.Braces
import Script.Proofs.Parse.Closing
import Script.Proofs.Heap.Visible
import Script.Proofs.Table.Indexed
import Script.Proofs.Eval.Literal
import Script.Proofs.Eval.Arithmetic
import Script.Proofs.Heap.Extended
import Script.Proofs.Eval.Given
import Script.Proofs.Session.Summation
import Script.Proofs.Session.Mapping
import Script.Proofs.Session.Spelled
import Script.Proofs.Session.Numeral
import Script.Proofs.Session.Plain
import Script.Proofs.Source.Lines
import Script.Proofs.Token.Placed
import Script.Proofs.Token.Respaced
import Script.Proofs.Parse.Pointed
import Script.Proofs.Parse.Relocated
import Script.Proofs.Session.Counting
import Script.Proofs.Session.Reached
