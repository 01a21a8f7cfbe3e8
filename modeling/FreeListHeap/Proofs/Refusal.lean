import FreeListHeap.Proofs.Growth
import FreeListHeap.Proofs.Moving

namespace FreeListHeap

variable {build : Build} {ledger : Ledger} {free : List Block} {action : Action}
  {actions : List Action} {size align : Word}

namespace Valid

end Valid

end FreeListHeap
