import FreeListHeap.Session
import FreeListHeap.Proofs.Integrity
import FreeListHeap.Proofs.LowestFit
import FreeListHeap.Proofs.Builds
import FreeListHeap.Proofs.Canonical
import FreeListHeap.Proofs.Footprint
import FreeListHeap.Proofs.Plans
import FreeListHeap.Proofs.Lockstep
import FreeListHeap.Proofs.PathIndependence
import FreeListHeap.Proofs.Sharing
import FreeListHeap.Proofs.Handout
import FreeListHeap.Proofs.Exactness
import FreeListHeap.Proofs.Monotone
import FreeListHeap.Proofs.Growth
import FreeListHeap.Proofs.Giveback
import FreeListHeap.Proofs.Moving
import FreeListHeap.Proofs.Packing
import FreeListHeap.Proofs.Adoption
import FreeListHeap.Proofs.Separation
import FreeListHeap.Proofs.Refusal
