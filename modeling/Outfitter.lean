import Outfitter.Api.Server
import Outfitter.Assistant.Cancel
import Outfitter.Main
import Outfitter.Proofs.Api.Repeated
import Outfitter.Proofs.Api.Saved
import Outfitter.Proofs.Assistant.Linear
import Outfitter.Proofs.Assistant.Start
import Outfitter.Proofs.Assistant.Undone
import Outfitter.Proofs.Catalog.Names
import Outfitter.Proofs.Dialogue.Clicks
import Outfitter.Proofs.Dialogue.Outfit
import Outfitter.Proofs.Dialogue.Wording
import Outfitter.Proofs.Documents.Meaning
import Outfitter.Proofs.Filters.Algebra
import Outfitter.Proofs.Filters.Nulls
import Outfitter.Proofs.Journal.Bracketed
import Outfitter.Proofs.Journal.Secrets
import Outfitter.Proofs.Message.Brands
import Outfitter.Proofs.Message.Letters
import Outfitter.Proofs.Plan.Derived
import Outfitter.Proofs.Plan.Kept
import Outfitter.Proofs.Plan.Pages
import Outfitter.Proofs.Plan.Rereading
import Outfitter.Proofs.Store.Sequence
import Outfitter.Proofs.Taxonomy.Consumed
import Outfitter.Proofs.Taxonomy.Found
import Outfitter.Proofs.Value.Leaves
import Outfitter.Telemetry
