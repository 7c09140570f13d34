import Scripting.Main
import Scripting.Proofs.Reading.Programs
import Scripting.Proofs.Sessions.Agreement
import Scripting.Proofs.Sessions.Restored
import Scripting.Proofs.Reading.Malformed
import Scripting.Proofs.Reading.Unended
import Scripting.Proofs.Reading.Blame
import Scripting.Proofs.Reading.Progress
import Scripting.Proofs.Running.Elsewhere
import Scripting.Proofs.Running.Errands
import Scripting.Proofs.Running.Regime
import Scripting.Proofs.Running.Obedience
import Scripting.Proofs.Running.Scopes
import Scripting.Proofs.Sessions.Kept
import Scripting.Proofs.Sessions.Scopes
import Scripting.Proofs.Reading.Shapes
import Scripting.Proofs.Running.Declared
import Scripting.Proofs.Sessions.Programs
import Scripting.Proofs.Sessions.Returns
import Scripting.Proofs.Sessions.Limits
import Scripting.Proofs.Sessions.Termination
import Scripting.Proofs.Sessions.Includes
import Scripting.Proofs.Sessions.Layouts
import Scripting.Proofs.Sessions.Lookups
import Scripting.Proofs.Sessions.Arrays
import Scripting.Proofs.Sessions.Renamed
import Scripting.Proofs.Sessions.Reports
import Scripting.Proofs.Reading.Braces
import Scripting.Proofs.Reading.Excerpts
import Scripting.Proofs.Running.Forests
import Scripting.Proofs.Sessions.Excerpts
import Scripting.Proofs.Sessions.Requests
import Scripting.Proofs.Reading.Hopeless
import Scripting.Proofs.Reading.Lexemes
import Scripting.Proofs.Running.Unfoldings
import Scripting.Proofs.Running.Repeated
import Scripting.Proofs.Sessions.Closed
import Scripting.Proofs.Running.Positions
import Scripting.Proofs.Reading.Marks
import Scripting.Proofs.Reading.Legible
import Scripting.Proofs.Sessions.Prompts
import Scripting.Proofs.Sessions.Echoes
import Scripting.Proofs.Reading.Appended
import Scripting.Proofs.Sessions.Identities
