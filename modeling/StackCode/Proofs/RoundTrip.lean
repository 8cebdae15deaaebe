import StackCode.Proofs.Spellings

/-!
# Decoding undoes encoding

Decoding counts the levels it may still open, and what spells a tree is read back as that tree
wherever the count is at least the depth of the value (`Reads`). Readers are put together as
spellings are: a record reads when its fields do, an array when its items do, and a variant when its
content does.
-/

namespace StackCode

open List

variable {p : Pattern} (rest : Rest) (path : Path) (t : NameTable) {content kind : Json → Prop}
  {tag : String} {span : Span}

namespace Json

variable {values : List Json} {field : String × Json} {d : Nat} {pairs : List (String × Json)}
variable {fields : Fields}

/-! ## Depth -/

theorem depth_le_fieldsDepth {fields : List (String × Json)} (member : field ∈ fields) :
    field.2.depth ≤ fieldsDepth fields := by
  induction fields with
  | nil => simp at member
  | cons first rest ih =>
    rcases mem_cons.1 member with rfl | later
    · exact Nat.le_max_left _ _
    · exact Nat.le_trans (ih later) (Nat.le_max_right _ _)

theorem depth_le_itemsDepth {items : List Json} {j : Json} (member : j ∈ items) :
    j.depth ≤ itemsDepth items := by
  induction items with
  | nil => simp at member
  | cons first rest ih =>
    rcases mem_cons.1 member with rfl | later
    · exact Nat.le_max_left _ _
    · exact Nat.le_trans (ih later) (Nat.le_max_right _ _)

/-! ## Records -/

theorem field?_of_mem {fields : List (String × Json)} (nodup : (fields.map Prod.fst).Nodup)
    (member : field ∈ fields) :
    field? fields field.1 = some (some field.2) := by
  have only : fields.filter (·.1 == field.1) = [field] := by
    induction fields with
    | nil => simp at member
    | cons first rest ih =>
      simp only [map_cons, nodup_cons] at nodup
      rcases mem_cons.1 member with rfl | later
      · have others : rest.filter (·.1 == field.1) = [] := by
          rw [filter_eq_nil_iff]
          intro other inside same
          exact nodup.1 (List.mem_map.2 ⟨other, inside, by simpa using same⟩)
        simp [others]
      · have differs : (first.1 == field.1) = false := by
          rw [beq_eq_false_iff_ne]
          intro same
          exact nodup.1 (List.mem_map.2 ⟨field, later, same.symm⟩)
        rw [filter_cons_of_neg (by simp [differs])]
        exact ih nodup.2 later
  rw [field?, only]

theorem mapM_eq_some {α β : Type} {f : α → Option β} {as : List α} {bs : List β}
    (each : Forall₂ (fun a b => f a = some b) as bs) : as.mapM f = some bs := by
  induction each with
  | nil => rfl
  | cons first _ ih => simp [mapM_cons, first, ih]

theorem map_fst_of_hold (each : fields.Hold pairs) :
    pairs.map Prod.fst = fields.map Prod.fst := by
  induction each with
  | nil => rfl
  | cons first _ ih => simp [first.1, ih]

/-- A value is as it may be, and no deeper than `d`. -/
def Within (spelled : Json → Prop) (d : Nat) (j : Json) : Prop := spelled j ∧ j.depth ≤ d

/-- Values that may stand in some fields, none of them deeper than `d`. -/
abbrev Fields.Give (fields : Fields) (d : Nat) (values : List Json) : Prop :=
  List.Forall₂ (fun field j => Within field.2 d j) fields values

/-- Something holds of all values that may stand in some fields. -/
def Fields.All (d : Nat) : Fields → (List String → List (Option Json) → Prop) → Prop
  | [], holds => holds [] []
  | (name, spelled) :: rest, holds => ∀ j, Within spelled d j →
    All d rest fun names values => holds (name :: names) (some j :: values)

theorem Fields.Give.all {holds : List String → List (Option Json) → Prop}
    (give : fields.Give d values) (each : fields.All d holds) :
    holds (fields.map Prod.fst) (values.map some) := by
  induction give generalizing holds with
  | nil => exact each
  | cons first _ ih => exact ih (each _ first)

theorem record?_object (k : Nat) (nodup : (fields.map Prod.fst).Nodup)
    (each : fields.Hold pairs) (deep : fieldsDepth pairs ≤ d) :
    ∃ values, record? (fields.map Prod.fst) k (.object pairs) = some (values.map some) ∧
      fields.Give d values := by
  refine ⟨pairs.map Prod.snd, ?_, ?_⟩
  · have names := map_fst_of_hold each
    rw [record?, ← names, List.map_map]
    apply mapM_eq_some
    rw [forall₂_map_left_iff, forall₂_map_right_iff, forall₂_same]
    intro pair member
    exact field?_of_mem (names ▸ nodup) member
  · have bounded : ∀ pair ∈ pairs, pair.2.depth ≤ d := fun pair member =>
      Nat.le_trans (depth_le_fieldsDepth member) deep
    clear nodup deep
    induction each with
    | nil => exact .nil
    | cons first _ ih =>
      exact .cons ⟨first.2, bounded _ mem_cons_self⟩
        (ih fun pair member => bounded pair (mem_cons_of_mem _ member))

theorem record?_array (k : Nat)
    (each : Forall₂ (fun field j => field.2 j) fields values) (deep : itemsDepth values ≤ d) :
    record? (fields.map Prod.fst) k (.array values) = some (values.map some) ∧
      fields.Give d values := by
  have same : fields.length = values.length := each.length_eq
  refine ⟨by simp [record?, same], ?_⟩
  have bounded : ∀ j ∈ values, j.depth ≤ d := fun j member =>
    Nat.le_trans (depth_le_itemsDepth member) deep
  clear same deep
  induction each with
  | nil => exact .nil
  | cons first _ ih =>
    exact .cons ⟨first, bounded _ mem_cons_self⟩
      (ih fun j member => bounded j (mem_cons_of_mem _ member))

theorem exists_level_of_tagged {tag : String} {content : Json}
    (deep : (tagged tag content).depth ≤ d) :
    ∃ d', d = d' + 1 :=
  Nat.exists_eq_add_one.2 (Nat.lt_of_lt_of_le (Nat.succ_pos _) deep)

end Json

open Json

/-! ## Readers -/

/-- A reader gives one answer for all values that are as they may be, when it may go as deep as they
do. -/
def Reads {α : Type} (f : Nat → Json → Option α) (spelled : Json → Prop) (a : α) : Prop :=
  ∀ ⦃d j⦄, Within spelled d j → f d j = some a

namespace Reads

variable {α : Type} {f : Nat → Json → Option α} {a : α}

/-- A record is read, in either form, by what is one level below it. -/
theorem record {fields : Fields} (k : Nat)
    (each : ∀ d j, fields.All d fun names values =>
      record? names k j = some values → f (d + 1) j = some a)
    (nodup : (fields.map Prod.fst).Nodup := by simp) : Reads f (IsRecord fields) a := by
  rintro d j ⟨is, deep⟩
  have opened : 0 < d := by
    cases is <;> (rw [depth] at deep; omega)
  obtain ⟨d, rfl⟩ := Nat.exists_eq_add_one.2 opened
  cases is with
  | byName named =>
    obtain ⟨values, found, give⟩ := record?_object k nodup named (Nat.le_of_succ_le_succ deep)
    exact give.all (each d _) found
  | byPosition listed =>
    obtain ⟨found, give⟩ := record?_array k listed (Nat.le_of_succ_le_succ deep)
    exact give.all (each d _) found

/-- So are the fields of a variant, whether or not they might be given by position. -/
theorem fields {fields : Fields} (positional : Bool)
    (each : ∀ d j, fields.All d fun names values =>
      named? positional names j = some values → f (d + 1) j = some a)
    (nodup : (fields.map Prod.fst).Nodup := by simp) : Reads f (IsFields fields) a := by
  rintro d j ⟨⟨named⟩, deep⟩
  obtain ⟨d, rfl⟩ := Nat.exists_eq_add_one.2 (Nat.lt_of_lt_of_le (Nat.succ_pos _) deep)
  obtain ⟨values, found, give⟩ := record?_object 0 nodup named (Nat.le_of_succ_le_succ deep)
  exact give.all (each d _) found

theorem variant {tag : String} {content : Json → Prop}
    (inside : Reads (fun d j => f (d + 1) (tagged tag j)) content a) :
    Reads f (IsTagged tag content) a := by
  rintro d j ⟨⟨is⟩, deep⟩
  obtain ⟨d, rfl⟩ := exists_level_of_tagged deep
  simp only [tagged, depth, fieldsDepth, Nat.max_zero] at deep
  exact inside ⟨is, Nat.le_of_succ_le_succ deep⟩

theorem nil (f : Nat → Json → Option α) : Reads (items? f) (IsList []) [] := by
  rintro d j ⟨⟨⟨⟩⟩, deep⟩
  obtain ⟨d, rfl⟩ := Nat.exists_eq_add_one.2 (Nat.lt_of_lt_of_le (Nat.succ_pos _) deep)
  rfl

theorem cons {spelled : Json → Prop} {others : List (Json → Prop)} {as : List α}
    (first : Reads f spelled a) (rest : Reads (items? f) (IsList others) as) :
    Reads (items? f) (IsList (spelled :: others)) (a :: as) := by
  rintro d j ⟨⟨_ | ⟨is, are⟩⟩, deep⟩
  obtain ⟨d, rfl⟩ := Nat.exists_eq_add_one.2 (Nat.lt_of_lt_of_le (Nat.succ_pos _) deep)
  have below := Nat.max_le.1 (Nat.le_of_succ_le_succ deep)
  have read := rest ⟨.intro are, Nat.succ_le_succ below.2⟩
  rw [items?, list?] at read ⊢
  simp [mapM_cons, first ⟨is, below.1⟩, read]

/-- Parts that are read one by one, each by its own spelling. -/
theorem list {β : Type} {f : Nat → Json → Option β} {spelled : β → Json → Prop}
    (reads : ∀ b, Reads f (spelled b) b) (bs : List β) :
    Reads (items? f) (IsList (bs.map spelled)) bs := by
  induction bs with
  | nil => exact nil f
  | cons b rest ih => exact (reads b).cons ih

theorem missing (f : Nat → Json → Option α) :
    Reads (fun d j => optional? (f d) (some j)) (IsOptional none) none := by
  rintro d j ⟨rfl, -⟩
  rfl

theorem present {spelled : Json → Prop} (reads : Reads f spelled a) (notNull : ¬ spelled .null) :
    Reads (fun d j => optional? (f d) (some j)) (IsOptional (some spelled)) (some a) := by
  intro d j is
  have here : j ≠ .null := fun null => notNull (null ▸ is.1)
  simp [optional?, reads is]

theorem optional {spelled : α → Json → Prop}
    (reads : ∀ a, Reads f (spelled a) a) (notNull : ∀ a, ¬ spelled a .null) :
    ∀ value : Option α,
      Reads (fun d j => optional? (f d) (some j)) (IsOptional (value.map spelled)) value
  | none => missing f
  | some a => present (reads a) (notNull a)

end Reads

/-! ## Parts without recursion -/

@[simp] theorem nat?_ofNat (n : Nat) : nat? (.ofNat n) = some n := by
  simp [ofNat, nat?]

@[simp] theorem byte?_ofNat (b : UInt8) : byte? (.ofNat b.toNat) = some b := by
  have small : b.toNat < 256 := b.toNat_lt
  have bounded : (0 : Int) ≤ b.toNat ∧ (b.toNat : Int) < 256 := by omega
  simp [ofNat, byte?, bounded]

@[simp] theorem int64?_ofInt (n : Int64) : int64? (.ofInt n.toInt) = some n := by
  have low : -0x8000000000000000 ≤ n.toInt := n.le_toInt
  have high : n.toInt < 0x8000000000000000 := n.toInt_lt
  simp [ofInt, int64?, low, high]

@[simp] theorem optional?_textOrNull (text : Option String) :
    optional? text? (some (.textOrNull text)) = some text := by
  cases text <;> rfl

@[simp] theorem SequenceKind.ofTag?_tag (kind : SequenceKind) : ofTag? kind.tag = some kind := by
  cases kind <;> rfl

@[simp] theorem BinaryOp.ofTag?_tag (operator : BinaryOp) : ofTag? operator.tag =
    some operator := by
  cases operator <;> rfl

@[simp] theorem UnaryOp.ofTag?_tag (operator : UnaryOp) : ofTag? operator.tag = some operator := by
  cases operator <;> rfl

@[simp] theorem NamespaceKind.ofVariant?_variant (kind : NamespaceKind) :
    ofVariant? kind.variant = some kind := by
  cases kind <;> rfl

@[simp] theorem AttributeKind.ofVariant?_variant (kind : AttributeKind) :
    ofVariant? kind.variant = some kind := by
  cases kind <;> rfl

@[simp] theorem optional?_operator (operator : Option BinaryOp) (d : Nat) :
    optional? (fun o => (o.tag? d).bind BinaryOp.ofTag?)
      (some (.textOrNull (operator.map BinaryOp.tag))) = some operator := by
  cases operator with
  | none => rfl
  | some operator => simp [textOrNull, ofOption, optional?, tag?]

@[simp] theorem required?_some {α : Type} (f : Json → Option α) (j : Json) :
    required? f (some j) = f j := rfl

@[simp] theorem text?_string (s : String) : text? (.string s) = some s := rfl

@[simp] theorem flag?_bool (b : Bool) : flag? (.bool b) = some b := rfl

@[simp] theorem tag?_string (d : Nat) (s : String) : tag? d (.string s) = some s := rfl

theorem text_reads (text : String) : Reads (fun _ => text?) (TextSpelled text) text := fun _ _ is =>
  congrArg text? is.1

theorem texts_read (texts : List String) :
    Reads (items? fun _ => text?) (IsList (texts.map TextSpelled)) texts :=
  Reads.list text_reads texts

theorem Literal.ofJson?_tagged (bare : ofTag? tag = none) (d : Nat) (content : Json) :
    ofJson? (d + 1) (tagged tag content) = ofContent? tag content := by
  have alone : ((tagged tag content).tag? (d + 1)).bind ofTag? = none := by
    cases content <;> simp [tagged, tag?, bare]
  unfold ofJson?
  rw [alone]
  rfl

theorem Literal.readsBack (value : Literal) : Reads Literal.ofJson? value.Spelled value := by
  rintro d j ⟨rfl, deep⟩
  cases value with
  | nil => simp [toJson, ofJson?, ofTag?]
  | bool flag => cases flag <;> simp [toJson, ofJson?, ofTag?]
  | int _ | float _ | string _ | symbol _ =>
    obtain ⟨d, rfl⟩ := exists_level_of_tagged deep
    rw [toJson, ofJson?_tagged rfl]
    simp [ofContent?, double?]

theorem Target.readsBack (target : Target) : Reads Target.ofJson? target.Spelled target := by
  rintro d j ⟨rfl, deep⟩
  cases target with
  | «local» name | ivar name =>
    obtain ⟨d, rfl⟩ := exists_level_of_tagged deep
    simp [toJson, tagged, ofJson?]

theorem Span.readsBack (span : Span) : Reads Span.ofJson? span.Spelled span :=
  .record 0 fun d j => by
    rintro _ ⟨rfl, -⟩ _ ⟨rfl, -⟩ _ ⟨rfl, -⟩ _ ⟨rfl, -⟩ found
    simp [Span.ofJson?, found]

theorem Path.readsBack : Reads Path.ofJson? path.Spelled path :=
  .record 1 fun d j => by
    rintro _ segments _ ⟨rfl, -⟩ found
    simp [Path.ofJson?, found, texts_read _ segments, defaulted?]

theorem Rest.readsBack : Reads Rest.ofJson? rest.Spelled rest :=
  .record 0 fun d j => by
    rintro _ ⟨rfl, -⟩ _ ⟨rfl, -⟩ found
    simp [Rest.ofJson?, found]

theorem Attribute.readsBack (a : Attribute) : Reads Attribute.ofJson? a.Spelled a :=
  .record 0 fun d j => by
    rintro _ ⟨rfl, -⟩ _ ⟨rfl, -⟩ found
    simp [Attribute.ofJson?, found]

theorem Alias.readsBack (a : Alias) : Reads Alias.ofJson? a.Spelled a :=
  .record 0 fun d j => by
    rintro _ ⟨rfl, -⟩ _ ⟨rfl, -⟩ found
    simp [Alias.ofJson?, found]

theorem Using.readsBack {positional : Bool} (u : Using) :
    Reads (Using.ofJson? positional) u.Spelled u := by
  cases u with
  | constant path newName =>
    exact .variant <| .fields positional fun d j => by
      rintro _ isPath _ ⟨rfl, -⟩ found
      simp [tagged, Using.ofJson?, found, path.readsBack isPath]
  | all path => exact .variant fun d j is => by simp [tagged, Using.ofJson?, path.readsBack is]

/-! ## Patterns -/

variable {positional : Bool}

theorem Pattern.reads_node (reads : Reads (Pattern.ofKind? positional span) kind p) :
    Reads (Pattern.ofJson? positional) (span.NodeSpelled kind) p :=
  .record 0 fun d j _ isKind _ isSpan found => by
    simp [Pattern.ofJson?, found, span.readsBack isSpan, reads isKind]

theorem Rest.not_spelled_null : ¬ rest.Spelled .null := by
  rintro ⟨⟩

theorem Path.not_spelled_null : ¬ path.Spelled .null := by
  rintro ⟨⟩

@[simp] theorem Pattern.listOfJson?_eq :
    Pattern.listOfJson? positional = items? (Pattern.ofJson? positional) := by
  funext d j
  cases d <;> rfl

@[simp] theorem Pattern.entriesOfJson?_eq :
    Pattern.entriesOfJson? positional = items? (Pattern.entryOfJson? positional) := by
  funext d j
  cases d <;> rfl

theorem Pattern.reads_entry (key : Literal)
    (reads : Reads (Pattern.ofJson? positional) p.Spelled p) :
    Reads (Pattern.entryOfJson? positional)
      (IsRecord [("key", key.Spelled), ("pattern", p.Spelled)])
      (key, p) :=
  .record 0 fun d j _ isKey _ isPattern found => by
    simp [Pattern.entryOfJson?, found, key.readsBack isKey, reads isPattern]

mutual

theorem Pattern.readsBack : ∀ p : Pattern,
    Reads (Pattern.ofJson? positional) p.Spelled p
  | .wildcard span => Pattern.reads_node fun d j is => by
    rw [is.1, Pattern.ofKind?]
  | .binding span name => Pattern.reads_node <| .variant fun d j is => by
    simp [tagged, Pattern.ofKind?, text_reads name is]
  | .literal span value => Pattern.reads_node <| .variant fun d j is => by
    simp [tagged, Pattern.ofKind?, value.readsBack is]
  | .sequence span kind elements rest =>
    Pattern.reads_node <| .variant <| .fields positional fun d j => by
      rintro _ ⟨rfl, -⟩ _ areElements _ isRest found
      simp [tagged, Pattern.ofKind?, Pattern.ofSequence?, found,
        Pattern.listReads elements areElements,
        Reads.optional Rest.readsBack Rest.not_spelled_null rest isRest]
  | .map span entries => Pattern.reads_node <| .variant fun d j is => by
    simp [tagged, Pattern.ofKind?, Pattern.entriesRead entries is]

theorem Pattern.listReads : ∀ ps : List Pattern,
    Reads (items? (Pattern.ofJson? positional)) (IsList (patternSpellings ps)) ps
  | [] => .nil _
  | p :: rest => (p.readsBack).cons (Pattern.listReads rest)

theorem Pattern.entriesRead : ∀ entries : List (Literal × Pattern),
    Reads (items? (Pattern.entryOfJson? positional))
      (IsList (patternEntrySpellings entries)) entries
  | [] => .nil _
  | (key, p) :: rest =>
    (Pattern.reads_entry key (p.readsBack)).cons (Pattern.entriesRead rest)

end

/-! ## Expressions and statements -/

theorem Expr.reads_node {e : Expr} (reads : Reads (Expr.ofKind? positional span) kind e) :
    Reads (Expr.ofJson? positional) (span.NodeSpelled kind) e :=
  .record 0 fun d j _ isKind _ isSpan found => by
    simp [Expr.ofJson?, found, span.readsBack isSpan, reads isKind]

theorem Stmt.reads_node {s : Stmt} (reads : Reads (Stmt.ofKind? positional span) kind s) :
    Reads (Stmt.ofJson? positional) (span.NodeSpelled kind) s :=
  .record 0 fun d j _ isKind _ isSpan found => by
    simp [Stmt.ofJson?, found, span.readsBack isSpan, reads isKind]

/-- The tags of the kinds of expressions that have named fields. -/
def Expr.fieldTags : List String :=
  ["Assign", "Binary", "Unary", "LogicalAnd", "LogicalOr", "If", "Switch", "Closure", "MethodCall",
    "SelfCall", "Call", "Subscript", "New"]

theorem Expr.ofKind?_fields (member : tag ∈ fieldTags) (d : Nat) (content : Json) :
    Expr.ofKind? positional span (d + 1) (tagged tag content) =
      Expr.ofFields? positional span tag d content := by
  have noLiteral : Literal.ofJson? (d + 1) (tagged tag content) = none := by
    simp only [fieldTags, mem_cons, not_mem_nil, or_false] at member
    rcases member with rfl | rfl | rfl | rfl | rfl | rfl | rfl | rfl | rfl | rfl | rfl | rfl | rfl
      <;>
      exact Literal.ofJson?_tagged rfl d content
  simp only [fieldTags, mem_cons, not_mem_nil, or_false] at member
  unfold tagged at noLiteral ⊢
  rcases member with rfl | rfl | rfl | rfl | rfl | rfl | rfl | rfl | rfl | rfl | rfl | rfl | rfl <;>
    simp [Expr.ofKind?, noLiteral]

theorem Expr.reads_fields {e : Expr} (reads : Reads (Expr.ofFields? positional span tag) content e)
    (member : tag ∈ fieldTags := by decide) :
    Reads (Expr.ofJson? positional) (span.NodeSpelled (IsTagged tag content)) e :=
  Expr.reads_node <| .variant fun d j is => by
    simp only [Expr.ofKind?_fields member, reads is]

/-- The tags of the kinds of statements that have fields. -/
def Stmt.fieldTags : List String :=
  ["While", "Variable", "PatternVariable", "Constant", "Namespace", "Method", "MethodSignature",
    "Attribute", "InstanceVariable"]

theorem Stmt.ofKind?_fields (member : tag ∈ fieldTags) (d : Nat) (content : Json) :
    Stmt.ofKind? positional span (d + 1) (tagged tag content) =
      Stmt.ofFields? positional span tag d content := by
  simp only [fieldTags, mem_cons, not_mem_nil, or_false] at member
  unfold tagged
  rcases member with rfl | rfl | rfl | rfl | rfl | rfl | rfl | rfl | rfl <;> simp [Stmt.ofKind?]

theorem Stmt.reads_fields {s : Stmt} (reads : Reads (Stmt.ofFields? positional span tag) content s)
    (member : tag ∈ fieldTags := by decide) :
    Reads (Stmt.ofJson? positional) (span.NodeSpelled (IsTagged tag content)) s :=
  Stmt.reads_node <| .variant fun d j is => by
    simp only [Stmt.ofKind?_fields member, reads is]

theorem Expr.not_spelled_null (e : Expr) : ¬ e.Spelled .null := by
  cases e <;> rintro ⟨⟩

theorem not_isList_null (items : List (Json → Prop)) : ¬ IsList items .null := by
  rintro ⟨⟩

theorem Literal.reads_kind (span : Span) (value : Literal) :
    Reads (Expr.ofKind? positional span) value.Spelled (.literal span value) := by
  rintro d j ⟨rfl, deep⟩
  have read := value.readsBack ⟨rfl, deep⟩
  cases value with
  | nil => simp [toJson, Expr.ofKind?, ofTag?]
  | bool flag => cases flag <;> simp [toJson, Expr.ofKind?, ofTag?]
  | int _ | float _ | string _ | symbol _ =>
    obtain ⟨d, rfl⟩ := exists_level_of_tagged deep
    simp only [toJson, tagged] at read
    simp [toJson, tagged, Expr.ofKind?, read]

@[simp] theorem Expr.listOfJson?_eq :
    Expr.listOfJson? positional = items? (Expr.ofJson? positional) := by
  funext d j
  cases d <;> rfl

@[simp] theorem Expr.entriesOfJson?_eq :
    Expr.entriesOfJson? positional = items? (Expr.entryOfJson? positional) := by
  funext d j
  cases d <;> rfl

@[simp] theorem Expr.casesOfJson?_eq :
    Expr.casesOfJson? positional = items? (SwitchCase.ofJson? positional) := by
  funext d j
  cases d <;> rfl

@[simp] theorem Parameter.listOfJson?_eq :
    Parameter.listOfJson? positional = items? (Parameter.ofJson? positional) := by
  funext d j
  cases d <;> rfl

@[simp] theorem Stmt.listOfJson?_eq :
    Stmt.listOfJson? positional = items? (Stmt.ofJson? positional) := by
  funext d j
  cases d <;> rfl

mutual

theorem Expr.readsBack : ∀ e : Expr, Reads (Expr.ofJson? positional) e.Spelled e
  | .literal span value => Expr.reads_node (value.reads_kind span)
  | .self span => Expr.reads_node fun d j is => by
    rw [is.1]
    simp [Expr.ofKind?]
  | .sequence span kind items => Expr.reads_node <| .variant fun d j is => by
    have read := Expr.listReads items is
    cases kind <;> simp [tagged, SequenceKind.tag, Expr.ofKind?, read]
  | .map span entries => Expr.reads_node <| .variant fun d j is => by
    simp [tagged, Expr.ofKind?, Expr.entriesRead entries is]
  | .local span name | .ivar span name => Expr.reads_node <| .variant fun d j is => by
    simp [tagged, Expr.ofKind?, text_reads name is]
  | .constant span path => Expr.reads_node <| .variant fun d j is => by
    simp [tagged, Expr.ofKind?, path.readsBack is]
  | .assign span target operator value => Expr.reads_fields <|
    Reads.fields positional fun d j => by
      rintro _ isTarget _ ⟨rfl, -⟩ _ isValue found
      simp [Expr.ofFields?, found, target.readsBack isTarget, value.readsBack isValue]
  | .binary span operator left right => Expr.reads_fields <|
    Reads.fields positional fun d j => by
      rintro _ ⟨rfl, -⟩ _ isLeft _ isRight found
      simp [Expr.ofFields?, found, left.readsBack isLeft, right.readsBack isRight]
  | .unary span operator operand => Expr.reads_fields <|
    Reads.fields positional fun d j => by
      rintro _ ⟨rfl, -⟩ _ isOperand found
      simp [Expr.ofFields?, found, operand.readsBack isOperand]
  | .logical span operator left right => Expr.reads_fields
    (Reads.fields positional fun d j _ isLeft _ isRight found => by
      cases operator <;>
        simp [LogicalOp.tag, Expr.ofFields?, found, left.readsBack isLeft, right.readsBack isRight])
    (by cases operator <;> decide)
  | .block span body => Expr.reads_node <| .variant fun d j is => by
    simp [tagged, Expr.ofKind?, Stmt.listReads body is]
  | .conditional span condition thenBranch elseBranch => Expr.reads_fields <|
    Reads.fields positional fun d j _ isCondition _ isThen _ isElse found => by
      simp [Expr.ofFields?, found, condition.readsBack isCondition,
        Stmt.listReads thenBranch isThen, Stmt.blockReads elseBranch isElse]
  | .switch span subject cases elseBranch => Expr.reads_fields <|
    Reads.fields positional fun d j _ isSubject _ areCases _ isElse found => by
      simp [Expr.ofFields?, found, subject.readsBack isSubject,
        Expr.casesRead cases areCases, Stmt.blockReads elseBranch isElse]
  | .closure span params body => Expr.reads_fields <|
    Reads.fields positional fun d j _ areParams _ isBody found => by
      simp [Expr.ofFields?, found, Parameter.listReads params areParams, Stmt.listReads body isBody]
  | .methodCall span receiver name arguments => Expr.reads_fields <|
    Reads.fields positional fun d j => by
      rintro _ isReceiver _ ⟨rfl, -⟩ _ areArguments found
      simp [Expr.ofFields?, found, receiver.readsBack isReceiver,
        Expr.listReads arguments areArguments]
  | .selfCall span name arguments => Expr.reads_fields <|
    Reads.fields positional fun d j => by
      rintro _ ⟨rfl, -⟩ _ areArguments found
      simp [Expr.ofFields?, found, Expr.listReads arguments areArguments]
  | .call span callee arguments => Expr.reads_fields <|
    Reads.fields positional fun d j _ isCallee _ areArguments found => by
      simp [Expr.ofFields?, found, callee.readsBack isCallee, Expr.listReads arguments areArguments]
  | .subscript span receiver index => Expr.reads_fields <|
    Reads.fields positional fun d j _ isReceiver _ isIndex found => by
      simp [Expr.ofFields?, found, receiver.readsBack isReceiver, index.readsBack isIndex]
  | .new span className arguments => Expr.reads_fields <|
    Reads.fields positional fun d j _ isClass _ areArguments found => by
      simp [Expr.ofFields?, found, className.readsBack isClass,
        Expr.listReads arguments areArguments]
  | .raise span error => Expr.reads_node <| .variant fun d j is => by
    simp [tagged, Expr.ofKind?, error.readsBack is]

theorem Expr.listReads : ∀ es : List Expr,
    Reads (items? (Expr.ofJson? positional)) (IsList (exprSpellings es)) es
  | [] => .nil _
  | e :: rest => (e.readsBack).cons (Expr.listReads rest)

theorem Expr.entriesRead : ∀ entries : List (Expr × Expr),
    Reads (items? (Expr.entryOfJson? positional)) (IsList (entrySpellings entries)) entries
  | [] => .nil _
  | (key, value) :: rest => Reads.cons (Reads.record 0 fun d j _ isKey _ isValue found => by
      simp [Expr.entryOfJson?, found, key.readsBack isKey, value.readsBack isValue])
    (Expr.entriesRead rest)

theorem Expr.optionReads : ∀ e : Option Expr,
    Reads (fun d j => optional? (Expr.ofJson? positional d) (some j))
      (IsOptional (exprSpelling e)) e
  | none => Reads.missing _
  | some e => Reads.present (e.readsBack) e.not_spelled_null

theorem Stmt.blockReads : ∀ block : Option (List Stmt),
    Reads (fun d j => optional? (items? (Stmt.ofJson? positional) d) (some j))
      (IsOptional (blockSpelling block)) block
  | none => Reads.missing _
  | some body => Reads.present (Stmt.listReads body) (not_isList_null _)

theorem Expr.casesRead : ∀ cases : List SwitchCase,
    Reads (items? (SwitchCase.ofJson? positional)) (IsList (caseSpellings cases)) cases
  | [] => .nil _
  | ⟨pattern, body, span⟩ :: rest =>
    Reads.cons (Reads.record 0 fun d j _ isPattern _ isBody _ isSpan found => by
      simp [SwitchCase.ofJson?, found, pattern.readsBack isPattern,
        Stmt.listReads body isBody, span.readsBack isSpan]) (Expr.casesRead rest)

theorem Parameter.listReads : ∀ params : List Parameter,
    Reads (items? (Parameter.ofJson? positional)) (IsList (paramSpellings params)) params
  | [] => .nil _
  | ⟨name, default, declaredType, span⟩ :: rest => Reads.cons (Reads.record 0 fun d j => by
      rintro _ ⟨rfl, -⟩ _ isDefault _ ⟨rfl, -⟩ _ isSpan found
      simp [Parameter.ofJson?, found, Expr.optionReads default isDefault,
        span.readsBack isSpan]) (Parameter.listReads rest)

theorem Stmt.readsBack : ∀ s : Stmt, Reads (Stmt.ofJson? positional) s.Spelled s
  | .expression span value => Stmt.reads_node <| .variant fun d j is => by
    simp [tagged, Stmt.ofKind?, value.readsBack is]
  | .ret span value => Stmt.reads_node <| .variant fun d j is => by
    simp [tagged, Stmt.ofKind?, Expr.optionReads value is]
  | .loop span condition body => Stmt.reads_fields <|
    Reads.fields positional fun d j _ isCondition _ isBody found => by
      simp [Stmt.ofFields?, found, condition.readsBack isCondition, Stmt.listReads body isBody]
  | .variable span name mutable declaredType initializer => Stmt.reads_fields <|
    Reads.record 0 fun d j => by
      rintro _ ⟨rfl, -⟩ _ ⟨rfl, -⟩ _ ⟨rfl, -⟩ _ isInitializer found
      simp [Stmt.ofFields?, found, Expr.optionReads initializer isInitializer]
  | .patternVariable span pattern mutable initializer => Stmt.reads_fields <|
    Reads.fields positional fun d j => by
      rintro _ isPattern _ ⟨rfl, -⟩ _ isValue found
      simp [Stmt.ofFields?, found, pattern.readsBack isPattern, initializer.readsBack isValue]
  | .constant span name declaredType value => Stmt.reads_fields <|
    Reads.fields positional fun d j => by
      rintro _ ⟨rfl, -⟩ _ ⟨rfl, -⟩ _ isValue found
      simp [Stmt.ofFields?, found, value.readsBack isValue]
  | .namespace span kind path superclass body => Stmt.reads_fields <|
    Reads.record 0 fun d j => by
      rintro _ ⟨rfl, -⟩ _ isPath _ isSuper _ isBody found
      simp [Stmt.ofFields?, found, path.readsBack isPath, Stmt.listReads body isBody,
        Reads.optional Path.readsBack Path.not_spelled_null superclass isSuper]
  | .singleton span body => Stmt.reads_node <| .variant fun d j is => by
    simp [tagged, Stmt.ofKind?, Stmt.listReads body is]
  | .method span name params body => Stmt.reads_fields <|
    Reads.record 0 fun d j => by
      rintro _ ⟨rfl, -⟩ _ areParams _ isBody found
      simp [Stmt.ofFields?, found, Parameter.listReads params areParams, Stmt.listReads body isBody]
  | .signature span name params => Stmt.reads_fields <|
    Reads.fields positional fun d j => by
      rintro _ ⟨rfl, -⟩ _ areParams found
      simp [Stmt.ofFields?, found, Parameter.listReads params areParams]
  | .attribute span kind entries => Stmt.reads_fields <|
    Reads.fields positional fun d j => by
      rintro _ ⟨rfl, -⟩ _ areEntries found
      simp [Stmt.ofFields?, found, Reads.list Attribute.readsBack entries areEntries]
  | .aliases span entries => Stmt.reads_node <| .variant fun d j is => by
    simp [tagged, Stmt.ofKind?, Reads.list Alias.readsBack entries is]
  | .ivar span name declaredType => Stmt.reads_fields <|
    Reads.fields positional fun d j => by
      rintro _ ⟨rfl, -⟩ _ ⟨rfl, -⟩ found
      simp [Stmt.ofFields?, found]
  | .include span paths => Stmt.reads_node <| .variant fun d j is => by
    simp [tagged, Stmt.ofKind?, Reads.list Path.readsBack paths is]
  | .using span entries => Stmt.reads_node <| .variant fun d j is => by
    simp [tagged, Stmt.ofKind?, Reads.list Using.readsBack entries is]

theorem Stmt.listReads : ∀ ss : List Stmt,
    Reads (items? (Stmt.ofJson? positional)) (IsList (stmtSpellings ss)) ss
  | [] => .nil _
  | s :: rest => (s.readsBack).cons (Stmt.listReads rest)

end

theorem Program.readsBack (positional : Bool) (program : Program) :
    Reads (Program.decode? positional) program.Spelled program :=
  .record 1 fun d j _ areStatements _ isSpan found => by
    simp [Program.decode?, found, defaulted?, Stmt.listReads program.statements areStatements,
      program.span.readsBack isSpan]

/-! ## Compiled functions -/

theorem Location.readsBack (l : Location) : Reads Location.ofJson? l.Spelled l :=
  .record 0 fun d j => by
    rintro _ ⟨rfl, -⟩ _ isSpan found
    simp [Location.ofJson?, found, l.span.readsBack isSpan]

theorem LineRun.readsBack (run : LineRun) : Reads LineRun.ofJson? run.Spelled run :=
  .record 0 fun d j => by
    rintro _ ⟨rfl, -⟩ _ ⟨rfl, -⟩ found
    simp [LineRun.ofJson?, found]

theorem LineTable.readsBack (t : LineTable) : Reads LineTable.ofJson? t.Spelled t :=
  .record 0 fun d j _ areRuns found => by
    simp [LineTable.ofJson?, found, Reads.list LineRun.readsBack t.runs areRuns]

theorem NameTable.names_foldl_insert {names : List String} {t : NameTable}
    (nodup : (t.names.toList ++ names).Nodup) :
    (names.foldl NameTable.insert t).names.toList = t.names.toList ++ names := by
  induction names generalizing t with
  | nil => simp
  | cons name rest ih =>
    have missing : name ∉ t.names.toList := by
      intro listed
      exact (nodup_append.1 nodup).2.2 name listed name mem_cons_self rfl
    have grown : (t.insert name).names.toList = t.names.toList ++ [name] := by
      rw [NameTable.names_insert, if_neg missing, Array.toList_push]
    rw [foldl_cons, ih (by rw [grown]; simpa using nodup), grown]
    simp

theorem NameTable.ofList_names : NameTable.ofList t.names.toList = t := by
  apply NameTable.ext
  apply Array.toList_inj.1
  rw [NameTable.ofList, NameTable.names_foldl_insert]
  · simp
  · simpa using t.nodup_names

theorem NameTable.readsBack : Reads NameTable.ofJson? t.Spelled t :=
  .record 0 fun d j _ areNames found => by
    simp [NameTable.ofJson?, found, texts_read _ areNames, t.ofList_names]

theorem bytes_read (code : List UInt8) :
    Reads (items? fun _ => byte?) (IsList (code.map fun b => NatSpelled b.toNat)) code := by
  refine Reads.list (fun b d j is => ?_) code
  rw [is.1, byte?_ofNat]

@[simp] theorem Value.listOfJson?_eq : Value.listOfJson? = items? Value.decode? := by
  funext d j
  cases d <;> rfl

mutual

theorem Value.readsBack : ∀ v : Value, Reads Value.decode? v.Spelled v
  | .nil => fun d j is => by
    rw [is.1, Value.decode?]
  | .int _ | .float _ | .string _ | .symbol _ => .variant fun d j is => by
    rw [is.1]
    simp [tagged, Value.decode?, double?]
  | .ivars table => .variant fun d j is => by
    simp [tagged, Value.decode?, table.readsBack is]
  | .function f => .variant fun d j is => by
    simp [tagged, Value.decode?, f.readsBack is]

theorem Value.listReads : ∀ vs : List Value,
    Reads (items? Value.decode?) (IsList (valueSpellings vs)) vs
  | [] => .nil _
  | v :: rest => v.readsBack.cons (Value.listReads rest)

theorem CompiledFunction.readsBack : ∀ f : CompiledFunction,
    Reads CompiledFunction.decode? f.Spelled f
  | ⟨name, code, location, lines, constants, required, optional, upvalues⟩ =>
    Reads.record 0 fun d j => by
      rintro _ ⟨rfl, -⟩ _ isCode _ isLocation _ areLines _ areConstants _ ⟨rfl, -⟩ _ ⟨rfl, -⟩ _
        ⟨rfl, -⟩ found
      simp [CompiledFunction.decode?, found, bytes_read _ isCode, location.readsBack isLocation,
        lines.readsBack areLines, Value.listReads constants areConstants]

end

/-! ## Units and functions -/

/-- **A unit or a function is read back from every spelling of it.** What is written is one of
them. -/
theorem decode_spelling :
    (∀ program : Program, program.Spelled program.toJson ∧
      Program.ofJson? program.toJson = some program ∧
        ∀ j, program.Spelled j → Program.ofJson? j = some program) ∧
    (∀ f : CompiledFunction, f.Spelled f.toJson ∧
      CompiledFunction.ofJson? f.toJson = some f ∧
        ∀ j, f.Spelled j → CompiledFunction.ofJson? j = some f) := by
  constructor
  · intro program
    have decoded : ∀ j, program.Spelled j → Program.ofJson? j = some program := by
      intro j is
      exact program.readsBack false ⟨is, Nat.le_refl _⟩
    exact ⟨program.spelled_toJson, decoded _ program.spelled_toJson, decoded⟩
  · intro f
    have decoded : ∀ j, f.Spelled j → CompiledFunction.ofJson? j = some f := by
      intro j is
      exact f.readsBack ⟨is, Nat.le_refl _⟩
    exact ⟨f.spelled_toJson, decoded _ f.spelled_toJson, decoded⟩

/-- A unit that only returns, with its node by position and the spans in both forms. -/
theorem decode_spelling_ret :
    Program.ofJson? (.array [
      .array [.array [tagged "Return" .null, .array [.ofNat 1, .ofNat 1, .ofNat 1, .ofNat 7]]],
      Span.zero.toJson]) =
        some ⟨[.ret ⟨1, 1, 1, 7⟩ none], Span.zero⟩ := by
  apply (decode_spelling.1 _).2.2
  refine .byPosition (.cons (.intro (.cons (.byPosition (.cons (.intro rfl) (.cons ?_ .nil))) .nil))
    (.cons Span.zero.spelled_toJson .nil))
  exact .byPosition (.cons rfl (.cons rfl (.cons rfl (.cons rfl .nil))))

end StackCode
