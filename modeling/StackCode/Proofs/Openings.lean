import StackCode.Proofs.Scheme

/-!
# The namespaces that a text opens

A declaration of a namespace opens the one that its path denotes in the unit as a whole, if the unit
has declared it. Declarations stand at the top level and in the bodies of other namespaces only; in
a function, a block or a singleton block they are illegal, and open nothing.
-/

namespace StackCode

mutual

/-- The namespaces that a statement opens, in the order of the text. -/
def Stmt.openings (site : Site) : Stmt → List NamespaceRecord
  | .namespace span kind path _ body =>
    let legal := site.context.permits (.namespace kind)
    let target := (declarationTarget site.nesting site.unit.lookup path).toOption
    let fullName := (target.map Prod.snd).getD site.fullName
    let opened := if legal then site.opened? kind target else none
    (opened.map fun (parent, fullName, name) => ⟨fullName, parent, name, kind, span⟩).toList ++
      Stmt.allOpenings (site.inNamespace fullName kind legal) body
  | .expression _ _ => []
  | .ret _ _ => []
  | .loop _ _ _ => []
  | .variable _ _ _ _ _ => []
  | .patternVariable _ _ _ _ => []
  | .constant _ _ _ _ => []
  | .singleton _ _ => []
  | .method _ _ _ _ => []
  | .signature _ _ _ => []
  | .attribute _ _ _ => []
  | .aliases _ _ => []
  | .ivar _ _ _ => []
  | .include _ _ => []
  | .using _ _ => []

/-- Those of some statements. -/
def Stmt.allOpenings (site : Site) : List Stmt → List NamespaceRecord
  | [] => []
  | stmt :: rest => stmt.openings site ++ Stmt.allOpenings site rest

end

/-- The namespaces that a unit opens. -/
def Program.openings (unit : UnitInfo) (program : Program) : List NamespaceRecord :=
  Stmt.allOpenings ⟨unit, [rootName], .topLevel⟩ program.statements

/-- Note a namespace, unless it is noted already. -/
def noteOpening (records : OrderedMap NamespaceRecord) (opening : NamespaceRecord) :
    OrderedMap NamespaceRecord :=
  if records.contains opening.fullName then records
  else records.insert opening.fullName opening

/-! ## Illegal declarations -/

mutual

theorem Stmt.openings_eq_nil (stmt : Stmt) (site : Site)
    (illegal : ∀ kind, site.context.permits (.namespace kind) = false) :
      stmt.openings site = [] := by
  cases stmt with
  | «namespace» span kind path _ body =>
    rw [Stmt.openings, illegal kind]
    exact Stmt.allOpenings_eq_nil body _ fun _ => rfl
  | _ => rfl

theorem Stmt.allOpenings_eq_nil : ∀ (body : List Stmt) (site : Site),
    (∀ kind, site.context.permits (.namespace kind) = false) → Stmt.allOpenings site body = []
  | [], _, _ => rfl
  | stmt :: rest, site, illegal => by
    rw [Stmt.allOpenings, Stmt.openings_eq_nil stmt site illegal,
      Stmt.allOpenings_eq_nil rest site illegal, List.append_nil]

end

end StackCode
