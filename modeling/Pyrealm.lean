import Pyrealm.Forensics.Warnings
import Pyrealm.Forensics.Snapshots
import Pyrealm.Forensics.TextRuns
import Pyrealm.Forensics.ResultSet
import Pyrealm.Forensics.Race
import Pyrealm.Forensics.Evidence
import Pyrealm.Forensics.Cli
import Pyrealm.Forensics.Entropy
import Pyrealm.Reader.Links
import Pyrealm.Reader.Sequence
import Pyrealm.Reader.Timestamp
import Pyrealm.Reader.Expansion
import Pyrealm.Reader.Export
import Pyrealm.Reader.Entries
import Pyrealm.Reader.Open
import Pyrealm.Forensics.EndToEnd
import Pyrealm.Forensics.Rewrites
import Pyrealm.Forensics.Image
import Pyrealm.Reader.Refinement
import Pyrealm.Reader.Damage
import Pyrealm.Reader.Typing
import Pyrealm.Forensics.Sectors
import Pyrealm.Reader.TypedExport
import Pyrealm.Reader.Navigation
import Pyrealm.Reader.Forms
