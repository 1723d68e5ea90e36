import TemplateTrace.Disk
import TemplateTrace.Main
import TemplateTrace.Proofs.Acceptance
import TemplateTrace.Proofs.Beginnings
import TemplateTrace.Proofs.Decoding
import TemplateTrace.Proofs.Ownership
import TemplateTrace.Proofs.Reach
import TemplateTrace.Recording.Writer
import TemplateTrace.Proofs.Strictness
import TemplateTrace.Proofs.Legibility
import TemplateTrace.Proofs.Json.RoundTrip
import TemplateTrace.Proofs.Recording
import TemplateTrace.Proofs.Bars
import TemplateTrace.Proofs.Wrapping
import TemplateTrace.Proofs.Tally
import TemplateTrace.Proofs.Agreement
import TemplateTrace.Proofs.Fitting
import TemplateTrace.Proofs.Replay
import TemplateTrace.Proofs.Blame
import TemplateTrace.Proofs.Mirror
import TemplateTrace.Proofs.Renumbering
import TemplateTrace.Proofs.Places
import TemplateTrace.Proofs.Dump
import TemplateTrace.Proofs.Filling
import TemplateTrace.Proofs.Counts
import TemplateTrace.Proofs.Recovery
import TemplateTrace.Proofs.Verdict
import TemplateTrace.Proofs.Essence
import TemplateTrace.Proofs.Locality
import TemplateTrace.Proofs.Turns
import TemplateTrace.Proofs.Toml.Quoting
import TemplateTrace.Proofs.Toml.Lines
import TemplateTrace.Proofs.Disk
import TemplateTrace.Proofs.Saving
import TemplateTrace.Proofs.Preservation
import TemplateTrace.Proofs.Memoized
import TemplateTrace.Proofs.Provision
import TemplateTrace.Proofs.FileNames
