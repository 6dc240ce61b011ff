import ClassText.Disk.Directory
import ClassText.Job
import ClassText.Main
import ClassText.Proofs.Bytes.Diagnosis
import ClassText.Proofs.Bytes.Takes
import ClassText.Proofs.ClassFile.Codec
import ClassText.Proofs.ClassFile.Counts
import ClassText.Proofs.ClassFile.Diagnosis
import ClassText.Proofs.ClassFile.Member
import ClassText.Proofs.ClassFile.Spelling
import ClassText.Proofs.ClassFile.Texts
import ClassText.Proofs.Code.Attribute
import ClassText.Proofs.Code.Block
import ClassText.Proofs.Code.Codec
import ClassText.Proofs.Code.Length
import ClassText.Proofs.Code.Partition
import ClassText.Proofs.Constant.Codec
import ClassText.Proofs.ConstantPool.Codec
import ClassText.Proofs.ConstantPool.Indexed
import ClassText.Proofs.ConstantPool.Store
import ClassText.Proofs.ConstantPool.Texts
import ClassText.Proofs.Frame.Alike
import ClassText.Proofs.Frame.Analysis
import ClassText.Proofs.Frame.Codec
import ClassText.Proofs.Frame.Covering
import ClassText.Proofs.Frame.Effect
import ClassText.Proofs.Frame.Exceptions
import ClassText.Proofs.Frame.Execution
import ClassText.Proofs.Frame.Faults
import ClassText.Proofs.Frame.Flow
import ClassText.Proofs.Frame.Limits
import ClassText.Proofs.Frame.Loop
import ClassText.Proofs.Frame.Order
import ClassText.Proofs.Frame.Reaching
import ClassText.Proofs.Frame.Scope
import ClassText.Proofs.Frame.Shortest
import ClassText.Proofs.Frame.Shuffle
import ClassText.Proofs.Frame.Slots
import ClassText.Proofs.Frame.Table
import ClassText.Proofs.Frame.Termination
import ClassText.Proofs.Frame.WellFormed
import ClassText.Proofs.Hierarchy.Alike
import ClassText.Proofs.Hierarchy.Ending
import ClassText.Proofs.Hierarchy.Extension
import ClassText.Proofs.Hierarchy.Order
import ClassText.Proofs.Hierarchy.Subclass
import ClassText.Proofs.Instruction.Codec
import ClassText.Proofs.Instruction.Reassembling
import ClassText.Proofs.Rewriting.Difference
import ClassText.Proofs.Rewriting.Ending
import ClassText.Proofs.Rewriting.Failure
import ClassText.Proofs.Rewriting.Fitting
import ClassText.Proofs.Rewriting.Independence
import ClassText.Proofs.Rewriting.Methods
import ClassText.Proofs.Rewriting.Moved
import ClassText.Proofs.Rewriting.Reframing
import ClassText.Proofs.Rewriting.Repointing
import ClassText.Proofs.Rewriting.Settling
import ClassText.Proofs.Rewriting.Substitution
import ClassText.Proofs.Rewriting.Unmoved
import ClassText.Proofs.Rewriting.Written
import ClassText.Proofs.Rule.Drawing
import ClassText.Proofs.Rule.Replacing
import ClassText.Proofs.Rule.Splitting
import ClassText.Proofs.Run.Ending
import ClassText.Proofs.Run.Entries
import ClassText.Proofs.Run.Events
import ClassText.Proofs.Run.Order
import ClassText.Proofs.Success
