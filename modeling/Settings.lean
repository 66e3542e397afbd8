import Settings.Bean
import Settings.Configuration.Keys
import Settings.Configuration.Update
import Settings.Forest.Outline
import Settings.Proofs.Agreement
import Settings.Proofs.Appending
import Settings.Proofs.Attachment
import Settings.Proofs.AttributeKeys
import Settings.Proofs.Beans
import Settings.Proofs.Bindings
import Settings.Proofs.Bracketing
import Settings.Proofs.Clearing
import Settings.Proofs.Confinement
import Settings.Proofs.Converting
import Settings.Proofs.Declarations
import Settings.Proofs.Delivering
import Settings.Proofs.Descriptions
import Settings.Proofs.Elements
import Settings.Proofs.Felling
import Settings.Proofs.Forest.Order
import Settings.Proofs.Gathering
import Settings.Proofs.Indexed
import Settings.Proofs.Interposing
import Settings.Proofs.Key.Refusing
import Settings.Proofs.Key.Rendering
import Settings.Proofs.Moving
import Settings.Proofs.Runs
import Settings.Proofs.Scalars
import Settings.Proofs.Splicing
import Settings.Proofs.Variables
import Settings.Proofs.Views
import Settings.Proofs.Withering
