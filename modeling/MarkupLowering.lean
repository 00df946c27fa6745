import MarkupLowering.Lowering.Snippet
import MarkupLowering.Proofs.Emitter.Arguments
import MarkupLowering.Proofs.Emitter.Constants
import MarkupLowering.Proofs.Emitter.OperandKinds
import MarkupLowering.Proofs.Emitter.Outline
import MarkupLowering.Proofs.Emitter.SequencePoints
import MarkupLowering.Proofs.Emitter.WellFormed
import MarkupLowering.Proofs.Hierarchy.LateInterfaces
import MarkupLowering.Proofs.Identity.ParameterOrder
import MarkupLowering.Proofs.Import.MemberIdentity
import MarkupLowering.Proofs.Lowering.Dispatches
import MarkupLowering.Proofs.Lowering.Faults
import MarkupLowering.Proofs.Lowering.HookReceivers
import MarkupLowering.Proofs.Lowering.Hooks
import MarkupLowering.Proofs.Lowering.Parents
import MarkupLowering.Proofs.Lowering.Simulation
import MarkupLowering.Proofs.Lowering.Texts
import MarkupLowering.Proofs.Module.CachedDocuments
import MarkupLowering.Proofs.Module.Independence
import MarkupLowering.Proofs.Module.Listings
import MarkupLowering.Proofs.Module.ReadBack
import MarkupLowering.Proofs.Module.SimpleNames
import MarkupLowering.Proofs.Tree.Walk
import MarkupLowering.Tree.Rules
import MarkupLowering.Workspace
