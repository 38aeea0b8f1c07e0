import NetDemo.Lib.Balance

/-!
This module contains how the `EventLoopThreadPool` of libhv chooses the loop for the next connection.
-/

namespace Libhv

inductive LoadBalance where
  | roundRobin
  | random
  | leastConnections
  | ipHash
  | urlHash
  deriving DecidableEq, Repr

structure EventLoopThreadPool where
  connectionNums : List UInt32
  nextLoopIdx : Nat
  deriving DecidableEq, Repr

-- `rand` is what `hv_rand(0, numLoops - 1)` returns.
def EventLoopThreadPool.nextLoop (pool : EventLoopThreadPool) (lb : LoadBalance) (rand : Nat)
    : Option (Nat × EventLoopThreadPool) :=
  let numLoops := pool.connectionNums.length
  if numLoops = 0 then
    none
  else
    match lb with
    | .roundRobin =>
      let idx := Balance.next numLoops pool.nextLoopIdx
      some (idx, { pool with nextLoopIdx := idx })
    | .random => some (rand, pool)
    | .leastConnections => some (Balance.least pool.connectionNums, pool)
    | .ipHash => some (0, pool)
    | .urlHash => some (0, pool)

end Libhv
