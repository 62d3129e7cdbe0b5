import PropertyTemplate.CommandLine.Machine
import PropertyTemplate.Main
import PropertyTemplate.Placeholder.Description
import PropertyTemplate.Proofs.Template.Segmentation
import PropertyTemplate.Proofs.Template.Rendering
import PropertyTemplate.Proofs.Template.Concatenation
import PropertyTemplate.Proofs.Template.Quotation
import PropertyTemplate.Proofs.Placeholder.Tokens
import PropertyTemplate.Proofs.CommandLine.Spelling
import PropertyTemplate.Proofs.Property.Bindings
import PropertyTemplate.Proofs.CommandLine.Precedence
import PropertyTemplate.Proofs.CommandLine.Execution
import PropertyTemplate.Proofs.Property.Merge
import PropertyTemplate.Proofs.Placeholder.Relevance
import PropertyTemplate.Proofs.Resolution.Addition
import PropertyTemplate.Proofs.Placeholder.Passes
import PropertyTemplate.Proofs.Yaml.Leaves
import PropertyTemplate.Proofs.Yaml.Paths
import PropertyTemplate.Proofs.PropertyFile.Lines
import PropertyTemplate.Proofs.Text.Windows1252
import PropertyTemplate.Proofs.PropertyFile.Encoding
import PropertyTemplate.Proofs.Yaml.Entry
import PropertyTemplate.Proofs.Yaml.Numerals
import PropertyTemplate.Proofs.Yaml.PlainScalars
import PropertyTemplate.Proofs.Placeholder.Echo
import PropertyTemplate.Proofs.Resolution.Loading
import PropertyTemplate.Proofs.PropertyFile.Escaping
import PropertyTemplate.Proofs.CommandLine.Reading
import PropertyTemplate.Proofs.CommandLine.Rendering
import PropertyTemplate.Proofs.Property.History
import PropertyTemplate.Proofs.Repository.Recognition
import PropertyTemplate.Proofs.Template.OctetRun
