import QueryTree.Shell.State
import QueryTree.Shell.World

/-!
# Sample sessions

Sessions to try commands in: a small shop, and a selection that joins two of its entities.
-/

namespace QueryTree.Sample

open Shell

/-- The definitions of a small shop. -/
def shop : List Text :=
  ["entity customer id:int:pk:auto name:string email:string:null age:int active:bool "
      ++ "deleted_at:time:null",
    "entity order id:int:pk:auto customer_id:int total:float",
    "entity item table line_items sku:string:pk qty:int note_text:string:null"]

/-- The shop with a selection of customers and their orders. -/
def joined : List Text :=
  shop ++ (["from customer c", "join order o on o.customer_id = c.id"] : List Text)

/-- The session after lines, whatever they print. -/
def after (s : Session) (w : World) (lines : List Text) : Session × World :=
  lines.foldl (fun (s, w) line =>
    let (o, w) := w.carryOut (s.runLine line)
    (o.session, w)) (s, w)

/-- The state after lines, whatever they print. -/
def stateAfter (s : State) (w : World) (lines : List Text) : State × World :=
  lines.foldl (fun (s, w) line =>
    let (r, w) := w.carryOut (s.runLine line)
    (r.state, w)) (s, w)

end QueryTree.Sample
