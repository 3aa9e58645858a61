import ConfigVault.Json.Basic
import ConfigVault.Number.Shortest
import ConfigVault.Yaml.Node
import ConfigVault.Yaml.Resolve

/-! # Nodes that show values

A node shows a JSON value when it says it in the way of either text format: without anchors and
tags, with words for scalars that are no strings, and with strings in any style that keeps them
strings.  Marks do not matter.
-/
namespace ConfigVault.Yaml

/-- A scalar in this style with this text is the text. -/
def KeepsText (style : ScalarStyle) (s : String) : Prop := style = .plain → resolve s = .string

mutual

/-- The node says the value. -/
inductive Shows : Json → Node → Prop where
  | null (m : Mark) : Shows .null (.scalar m .none .plain "null")
  | bool (m : Mark) (b : Bool) :
    Shows (.bool b) (.scalar m .none .plain (if b then "true" else "false"))
  | int (m : Mark) (i : Int) : Shows (.int i) (.scalar m .none .plain (toString i))
  | float (m : Mark) (plus : Bool) (x : Binary64) :
    Shows (.float x) (.scalar m .none .plain (String.ofList (x.dataText plus)))
  | string (m : Mark) {style : ScalarStyle} {s : String} (h : KeepsText style s) :
    Shows (.string s) (.scalar m .none style s)
  | array (m : Mark) {vs : List Json} {nodes : List Node} (h : ShowItems vs nodes) :
    Shows (.array vs) (.sequence m .none nodes)
  | object (m : Mark) {ms : List (String × Json)} {entries : List (Node × Node)}
    (h : ShowEntries ms entries) : Shows (.object ms) (.mapping m .none entries)

/-- The nodes say the items, in order. -/
inductive ShowItems : List Json → List Node → Prop where
  | nil : ShowItems [] []
  | cons {v : Json} {vs : List Json} {node : Node} {nodes : List Node} (hv : Shows v node)
    (hvs : ShowItems vs nodes) : ShowItems (v :: vs) (node :: nodes)

/-- The keys and values say the members, in order. -/
inductive ShowEntries : List (String × Json) → List (Node × Node) → Prop where
  | nil : ShowEntries [] []
  | cons {k : String} {v : Json} {ms : List (String × Json)} {key node : Node}
    {entries : List (Node × Node)} (hk : Shows (.string k) key) (hv : Shows v node)
    (hms : ShowEntries ms entries) : ShowEntries ((k, v) :: ms) ((key, node) :: entries)

end

end ConfigVault.Yaml
