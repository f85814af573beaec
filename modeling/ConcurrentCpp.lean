import ConcurrentCpp.ListIntegrity
import ConcurrentCpp.LockFreeListRCUPopulations
import ConcurrentCpp.HashSetFacts
import ConcurrentCpp.SeqLockRuns
import ConcurrentCpp.RingQueueFifo
import ConcurrentCpp.RingKeyQueueRuns
import ConcurrentCpp.IntrPointerRuns
import ConcurrentCpp.AppendDequeErrors
import ConcurrentCpp.HashSetErrors
import ConcurrentCpp.HashSetSlots
import ConcurrentCpp.HashSetQuiescence
import ConcurrentCpp.UnmarkedListRuns
import ConcurrentCpp.HandleAssignment
import ConcurrentCpp.ListDrain
import ConcurrentCpp.AtomicMaxRuns
import ConcurrentCpp.HashSetRCUCadenceRuns
import ConcurrentCpp.HashSetRCUHintRuns
import ConcurrentCpp.ThreadStack
import ConcurrentCpp.FreeHeadWord
import ConcurrentCpp.BucketGeometry
import ConcurrentCpp.AssignmentAgreement
import ConcurrentCpp.NodeDestruction
import ConcurrentCpp.HashSetBuckets
