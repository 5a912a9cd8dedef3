import TreeOutline.Main
import TreeOutline.Proofs.Append
import TreeOutline.Proofs.Blocks
import TreeOutline.Proofs.Callee
import TreeOutline.Proofs.Counts
import TreeOutline.Proofs.Ignored
import TreeOutline.Proofs.Serial
import TreeOutline.Proofs.TextReport
import TreeOutline.Proofs.Unread
import TreeOutline.Proofs.Member
import TreeOutline.Proofs.ClassLines
import TreeOutline.Proofs.ClassFault
import TreeOutline.Proofs.Outcome
import TreeOutline.Proofs.Tasks
import TreeOutline.Proofs.Rearranged
import TreeOutline.Proofs.Reserved
import TreeOutline.Proofs.Unreported
import TreeOutline.Proofs.RuleText
import TreeOutline.Proofs.ModuleName
import TreeOutline.Proofs.Spine
import TreeOutline.Proofs.SizeLimit
import TreeOutline.Proofs.Terminal
