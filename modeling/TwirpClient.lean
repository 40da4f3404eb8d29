import TwirpClient.Client.Configuration
import TwirpClient.Command.World
import TwirpClient.Main
import TwirpClient.Sample
import TwirpClient.Writer.Session
import TwirpClient.Proofs.Writing
import TwirpClient.Proofs.Layout
import TwirpClient.Proofs.Reader
import TwirpClient.Proofs.Reading
import TwirpClient.Proofs.ClientText
import TwirpClient.Proofs.Equality
import TwirpClient.Proofs.Dispatch
import TwirpClient.Proofs.Initials
import TwirpClient.Proofs.Lines
import TwirpClient.Proofs.Calls
import TwirpClient.Proofs.Indenting
import TwirpClient.Proofs.Spelling
import TwirpClient.Proofs.Records
import TwirpClient.Proofs.Answers
import TwirpClient.Proofs.Merging
import TwirpClient.Proofs.Collecting
import TwirpClient.Proofs.FileSets
import TwirpClient.Proofs.Requests
import TwirpClient.Proofs.Cutting
import TwirpClient.Proofs.Parameters
import TwirpClient.Proofs.TopLevel
import TwirpClient.Proofs.Literals
import TwirpClient.Proofs.Joining
import TwirpClient.Proofs.Restating
import TwirpClient.Proofs.Versions
import TwirpClient.Proofs.Recovery
import TwirpClient.Proofs.Following
import TwirpClient.Proofs.BaseNames
import TwirpClient.Proofs.FileNames
import TwirpClient.Proofs.Storing
import TwirpClient.Proofs.Clashes
import TwirpClient.Proofs.Limits
import TwirpClient.Proofs.Separating
import TwirpClient.Proofs.Delimiting
import TwirpClient.Proofs.Histories
import TwirpClient.Proofs.OpenNames
import TwirpClient.Proofs.Outcomes
