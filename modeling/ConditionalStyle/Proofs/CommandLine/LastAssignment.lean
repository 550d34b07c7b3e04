import ConditionalStyle.CommandLine.Assignment
import ConditionalStyle.Proofs.Expression.Path
import ConditionalStyle.Proofs.Reading
import Mathlib.Data.List.Basic
import Mathlib.Data.List.Induction
import Mathlib.Data.List.TakeWhile

/-!
# The last assignment counts

Assignments on the command line make a tree of dictionaries with scalars at its leaves. An
assignment to a path puts its scalar there, takes away all that was below the path, and leaves every
other leaf alone; it is refused if a leaf is in its way. So the leaves of a namespace are known from
the list of assignments alone: what counts for a path is the last assignment to the path or to what
it starts with.

## Main definitions

* `reach?`: the value that a path leads to.
* `LeadsTo`: the leaves of a tree of dictionaries.
* `itemPath`, `itemValue`: the two sides of an assignment.
* `Writes`: the last assignment that counts for a path is one to the path itself.

## Main statements

* `leadsTo_assign`, `exists_assign_iff`: what one assignment does to the leaves, and when it is
  refused.
* `leadsTo_namespaceOf`, `exists_namespaceOf_iff`: the same for a list of assignments.
* `evaluate_path`: expressions see the leaves.
* `namespaceOf_lastWrites`: all of these together.
-/

namespace ConditionalStyle

/-! ### Entries of a dictionary -/

namespace Value

theorem same_text (k : Value) (name : String) : same k (.text name) = isKey name k := by
  cases k <;> simp [same, samePlain, integral?, isKey]

/-- A key that was set has the new value, and every other key the old one. -/
theorem lookup?_insert (entries : List (Value × Value)) (key name : String) (value : Value) :
    lookup? (insert entries (.text key) value) name =
      if key = name then some value else lookup? entries name := by
  induction entries with
  | nil => simp [insert, isKey, lookup?]
  | cons e entries ih =>
    obtain ⟨k, v⟩ := e
    rw [insert, same_text]
    by_cases hkey : isKey key k = true
    · rw [if_pos hkey, lookup?_cons, lookup?_cons, isKey_iff.1 hkey]
      by_cases hname : key = name <;> simp [isKey, hname]
    · rw [if_neg hkey, lookup?_cons, ih, lookup?_cons]
      by_cases hname : key = name
      · rw [if_neg (hname ▸ hkey), if_pos hname, if_pos hname]
      · rw [if_neg hname, if_neg hname]

/-- The values that hold no others. -/
inductive IsScalar : Value → Prop
  | null : IsScalar .null
  | bool (b : Bool) : IsScalar (.bool b)
  | int (n : Int) : IsScalar (.int n)
  | float (x : Float) : IsScalar (.float x)
  | text (s : String) : IsScalar (.text s)

/-- The values that are no dictionaries. -/
def IsLeaf (v : Value) : Prop :=
  ∀ entries, v ≠ .dict entries

theorem IsScalar.isLeaf {v : Value} (h : v.IsScalar) : v.IsLeaf := by
  rintro entries rfl
  cases h

end Value

namespace CommandLine

open Value

/-! ### Leaves -/

/-- The value of a name in a dictionary; other values have none. -/
def bound? (name : String) : Value → Option Value
  | .dict entries => lookup? entries name
  | _ => none

/-- The value that a path of names leads to. -/
def reach? (v : Value) : List String → Option Value
  | [] => some v
  | name :: path => (bound? name v).bind (reach? · path)

/-- A path that leads to a value that is no dictionary. -/
def LeadsTo (entries : List (Value × Value)) (path : List String) (v : Value) : Prop :=
  reach? (.dict entries) path = some v ∧ v.IsLeaf

/-- The entries of the dictionary that an assignment goes on in after a name: an empty one is made
for a name that is not bound. -/
def inner? (entries : List (Value × Value)) (name : String) : Option (List (Value × Value)) :=
  match lookup? entries name with
  | none => some []
  | some (.dict inner) => some inner
  | some _ => none

variable {entries inner : List (Value × Value)} {part : String} {q : List String} {v : Value}

theorem not_leadsTo_nil : ¬LeadsTo entries [] v := by
  rintro ⟨hreach, hleaf⟩
  exact hleaf entries (Option.some.inj hreach).symm

theorem not_leadsTo_of_empty : ¬LeadsTo [] q v := by
  rcases q with _ | ⟨name, q⟩
  · exact not_leadsTo_nil
  · rintro ⟨hreach, -⟩
    cases hreach

theorem leadsTo_cons : LeadsTo entries (part :: q) v ↔
    ∃ w, lookup? entries part = some w ∧ reach? w q = some v ∧ v.IsLeaf := by
  simp [LeadsTo, reach?, bound?, Option.bind_eq_some_iff, ← and_assoc]

theorem leadsTo_cons_of_inner? (h : inner? entries part = some inner) :
    LeadsTo entries (part :: q) v ↔ LeadsTo inner q v := by
  rw [leadsTo_cons]
  rw [inner?] at h
  split at h
  · next hlookup =>
    cases h
    simp [hlookup, not_leadsTo_of_empty]
  · next hlookup =>
    cases h
    simp [hlookup, LeadsTo]
  · cases h

theorem exists_leadsTo_of_inner? (h : inner? entries part = none) :
    ∃ v, LeadsTo entries [part] v := by
  rw [inner?] at h
  split at h
  · cases h
  · cases h
  · next w hdict hlookup =>
    exact ⟨w, leadsTo_cons.2 ⟨w, hlookup, rfl, fun inner hw => hdict inner hw⟩⟩

theorem reach?_of_isScalar {w : Value} (h : w.IsScalar) :
    reach? w q = some v ↔ q = [] ∧ v = w := by
  rcases q with _ | ⟨name, q⟩
  · simp [reach?, eq_comm]
  · have hbound : bound? name w = none := by cases h <;> rfl
    simp [reach?, hbound]

theorem leadsTo_insert {name : String} {value : Value} :
    LeadsTo (insert entries (.text name) value) (part :: q) v ↔
      if name = part then reach? value q = some v ∧ v.IsLeaf
      else LeadsTo entries (part :: q) v := by
  rw [leadsTo_cons, lookup?_insert]
  split
  · simp
  · rw [leadsTo_cons]

/-! ### One assignment -/

variable {path : List String} {last : String} {value : Value}

theorem assign_cons (entries : List (Value × Value)) (part : String) (rest : List String)
    (last : String) (value : Value) :
    assign entries (part :: rest) last value =
      match inner? entries part with
      | none => .error (.conflict part)
      | some inner => (assign inner rest last value).map fun inner' =>
          insert entries (.text part) (.dict inner') := by
  rw [assign, inner?]
  rcases lookup? entries part with _ | w
  · dsimp only
    rcases assign [] rest last value with e | inner' <;> rfl
  · cases w with
    | dict inner => rcases assign inner rest last value with e | inner' <;> rfl
    | _ => rfl

/-- An assignment is refused if and only if the path passes a leaf. -/
theorem exists_assign_iff : (∃ entries', assign entries path last value = .ok entries') ↔
    ∀ q v, q <+: path → ¬LeadsTo entries q v := by
  induction path generalizing entries with
  | nil =>
    refine iff_of_true ⟨_, rfl⟩ fun q v hq => ?_
    rw [List.prefix_nil.1 hq]
    exact not_leadsTo_nil
  | cons part rest ih =>
    rw [assign_cons]
    rcases hinner : inner? entries part with _ | inner
    · obtain ⟨v, hv⟩ := exists_leadsTo_of_inner? hinner
      refine iff_of_false (by simp) fun h => h [part] v ?_ hv
      exact List.cons_prefix_cons.2 ⟨rfl, List.nil_prefix⟩
    · have hmap : (∃ entries', (assign inner rest last value).map (fun inner' =>
          insert entries (.text part) (.dict inner')) = .ok entries') ↔
          ∃ inner', assign inner rest last value = .ok inner' := by
        rcases assign inner rest last value with e | inner' <;> simp [Except.map]
      rw [hmap, ih]
      constructor
      · intro h q v hq
        rcases List.prefix_cons_iff.1 hq with rfl | ⟨q', rfl, hq'⟩
        · exact not_leadsTo_nil
        · rw [leadsTo_cons_of_inner? hinner]
          exact h q' v hq'
      · intro h q v hq
        rw [← leadsTo_cons_of_inner? hinner]
        exact h (part :: q) v (List.cons_prefix_cons.2 ⟨rfl, hq⟩)

/-- An assignment makes one leaf, takes away those below it and keeps all others. -/
theorem leadsTo_assign {entries' : List (Value × Value)} (hvalue : value.IsScalar)
    (h : assign entries path last value = .ok entries') :
    LeadsTo entries' q v ↔ (q = path ++ [last] ∧ v = value) ∨
      (¬path ++ [last] <+: q ∧ LeadsTo entries q v) := by
  induction path generalizing entries entries' q with
  | nil =>
    cases h
    rcases q with _ | ⟨name, q⟩
    · simp [not_leadsTo_nil]
    rw [leadsTo_insert, reach?_of_isScalar hvalue, List.nil_append, List.cons_prefix_cons]
    by_cases hname : last = name
    -- a scalar has no members, so nothing is left below it
    · have hleaf : v = value → v.IsLeaf := fun hv => hv ▸ hvalue.isLeaf
      simpa [hname, and_assoc] using fun _ => hleaf
    · simp [hname, Ne.symm hname]
  | cons part rest ih =>
    rw [assign_cons] at h
    rcases hinner : inner? entries part with _ | inner
    · rw [hinner] at h
      cases h
    rw [hinner] at h
    obtain ⟨inner', hinner', rfl⟩ := map_eq_ok_iff.1 h
    rcases q with _ | ⟨name, q⟩
    · simp [not_leadsTo_nil]
    rw [leadsTo_insert, List.cons_append, List.cons_prefix_cons]
    by_cases hname : part = name
    · subst hname
      rw [if_pos rfl, leadsTo_cons_of_inner? hinner, ← LeadsTo, ih hinner']
      simp
    · simp [hname, Ne.symm hname]

/-! ### Items -/

/-- The name of an item: what stands before the first equals sign. -/
def itemName (item : String) : List Char :=
  item.toList.takeWhile (· != '=')

/-- The path of an item: the parts of its name between dots, without the blanks around them. -/
def itemPath (item : String) : List String :=
  (pieces (itemName item)).map fun part => Text.strip (String.ofList part)

/-- The value of an item: that of what stands behind the first equals sign. It is irreducible, as
unfolding it would compare texts. -/
@[irreducible] def itemValue (item : String) : Value :=
  readValue (String.ofList (item.toList.drop ((itemName item).length + 1)))

/-- An item that has a value, and no part of its path is empty. -/
def IsAssignment (item : String) : Prop :=
  '=' ∈ item.toList ∧ "" ∉ itemPath item

instance (item : String) : Decidable (IsAssignment item) :=
  inferInstanceAs (Decidable (_ ∧ _))

variable {item : String}

theorem isScalar_readValue (raw : String) : (readValue raw).IsScalar := by
  unfold readValue
  dsimp only
  split
  · exact .bool true
  split
  · exact .bool false
  split
  · exact .null
  split
  · exact .int _
  split
  · exact .float _
  · exact .text raw

theorem isScalar_itemValue (item : String) : (itemValue item).IsScalar := by
  rw [itemValue]
  exact isScalar_readValue _

theorem itemPath_ne_nil (item : String) : itemPath item ≠ [] := by
  rw [itemPath, Ne, List.map_eq_nil_iff, pieces]
  exact List.splitOn_ne_nil '.' (itemName item)

theorem exists_itemPath_eq (item : String) : ∃ path last, itemPath item = path ++ [last] :=
  ⟨_, _, (List.dropLast_append_getLast (itemPath_ne_nil item)).symm⟩

theorem read_eq (item : String) : Assignment.read item =
    match item.toList.drop (itemName item).length with
    | [] => .error (.noValue item)
    | _ :: raw =>
      if (itemPath item).any String.isEmpty then .error (.badName item)
      else .ok ⟨(itemPath item).dropLast, (itemPath item).getLast?.getD "",
        readValue (String.ofList raw)⟩ := rfl

/-- Nothing is left behind the name if there is no equals sign. -/
theorem drop_itemName_eq_nil_iff :
    item.toList.drop (itemName item).length = [] ↔ '=' ∉ item.toList := by
  have hsplit : itemName item ++ item.toList.drop (itemName item).length = item.toList :=
    Text.takeWhile_append_drop (· != '=') item.toList
  rw [itemName] at hsplit ⊢
  constructor
  · intro hnil hmem
    rw [hnil, List.append_nil] at hsplit
    rw [← hsplit] at hmem
    simpa using List.mem_takeWhile_imp hmem
  · intro hmem
    have hall : item.toList.takeWhile (· != '=') = item.toList := by
      rw [List.takeWhile_eq_self_iff]
      intro c hc
      simpa using fun heq : c = '=' => hmem (heq ▸ hc)
    rw [hall, List.drop_length]

theorem any_isEmpty_iff {parts : List String} : parts.any String.isEmpty = true ↔ "" ∈ parts := by
  simp

/-- An item is read as an assignment of its value to its path. -/
theorem read_eq_ok_iff {a : Assignment} : Assignment.read item = .ok a ↔
    IsAssignment item ∧ a.path ++ [a.last] = itemPath item ∧ a.value = itemValue item := by
  obtain ⟨path, last, hpath⟩ := exists_itemPath_eq item
  rw [read_eq, IsAssignment, itemValue, ← any_isEmpty_iff]
  rcases hdrop : item.toList.drop (itemName item).length with _ | ⟨c, raw⟩
  · simp [drop_itemName_eq_nil_iff.1 hdrop]
  have hmem : '=' ∈ item.toList := by
    rw [← not_not (a := '=' ∈ item.toList), ← drop_itemName_eq_nil_iff, hdrop]
    simp
  have hraw : item.toList.drop ((itemName item).length + 1) = raw := by
    rw [← List.drop_drop, hdrop, List.drop_succ_cons, List.drop_zero]
  dsimp only
  rw [hraw]
  split
  · next hempty => simp [hempty]
  · next hempty =>
    rcases a with ⟨path', last', value⟩
    rw [and_iff_right ⟨hmem, hempty⟩, hpath]
    simp only [List.dropLast_concat, List.getLast?_concat, Option.getD_some, Except.ok.injEq,
      Assignment.mk.injEq, List.append_singleton_inj]
    constructor
    · rintro ⟨rfl, rfl, rfl⟩
      exact ⟨⟨rfl, rfl⟩, rfl⟩
    · rintro ⟨⟨rfl, rfl⟩, rfl⟩
      exact ⟨rfl, rfl, rfl⟩

theorem assignItem_eq (entries : List (Value × Value)) (item : String) :
    assignItem entries item = (Assignment.read item).bind fun a =>
      assign entries a.path a.last a.value := rfl

/-- An item is refused if it is no assignment or its path passes a leaf. -/
theorem exists_assignItem_iff : (∃ entries', assignItem entries item = .ok entries') ↔
    IsAssignment item ∧
      ∀ q v, q <+: itemPath item → q ≠ itemPath item → ¬LeadsTo entries q v := by
  constructor
  · rintro ⟨entries', h⟩
    rw [assignItem_eq] at h
    obtain ⟨a, ha, hassign⟩ := bind_eq_ok_iff.1 h
    obtain ⟨hitem, hpath, -⟩ := read_eq_ok_iff.1 ha
    refine ⟨hitem, fun q v hq hne => exists_assign_iff.1 ⟨entries', hassign⟩ q v ?_⟩
    rw [← hpath] at hq hne
    exact (List.prefix_concat_iff.1 hq).resolve_left hne
  · rintro ⟨hitem, hfree⟩
    obtain ⟨path, last, hpath⟩ := exists_itemPath_eq item
    have hread : Assignment.read item = .ok ⟨path, last, itemValue item⟩ :=
      read_eq_ok_iff.2 ⟨hitem, hpath.symm, rfl⟩
    rw [assignItem_eq, hread]
    refine exists_assign_iff.2 fun q v hq => hfree q v ?_ ?_
    · rw [hpath]
      exact hq.trans (List.prefix_append path [last])
    · rintro rfl
      have hlength := hq.length_le
      rw [hpath, List.length_append, List.length_singleton] at hlength
      exact Nat.not_succ_le_self _ hlength

/-- An item makes one leaf, takes away those below it and keeps all others. -/
theorem leadsTo_assignItem {entries' : List (Value × Value)}
    (h : assignItem entries item = .ok entries') :
    LeadsTo entries' q v ↔ (q = itemPath item ∧ v = itemValue item) ∨
      (¬itemPath item <+: q ∧ LeadsTo entries q v) := by
  rw [assignItem_eq] at h
  obtain ⟨a, ha, hassign⟩ := bind_eq_ok_iff.1 h
  obtain ⟨-, hpath, hvalue⟩ := read_eq_ok_iff.1 ha
  have hscalar : a.value.IsScalar := by
    rw [hvalue]
    exact isScalar_itemValue item
  rw [leadsTo_assign hscalar hassign, hpath, hvalue]

/-! ### Lists of items -/

/-- The last item for a path, or for what the path starts with, is one for the path itself and has
the given value. -/
def Writes (items : List String) (path : List String) (v : Value) : Prop :=
  ∃ earlier item later, items = earlier ++ item :: later ∧ itemPath item = path ∧
    itemValue item = v ∧ ∀ i ∈ later, ¬itemPath i <+: path

variable {items : List String}

theorem exists_mem_of_writes (h : Writes items q v) : ∃ item ∈ items, itemPath item = q := by
  obtain ⟨earlier, item, later, rfl, hpath, -⟩ := h
  exact ⟨item, by simp, hpath⟩

theorem not_writes_nil : ¬Writes [] q v := by
  intro h
  obtain ⟨item, hitem, -⟩ := exists_mem_of_writes h
  exact List.not_mem_nil hitem

theorem writes_concat : Writes (items ++ [item]) q v ↔
    (q = itemPath item ∧ v = itemValue item) ∨ (¬itemPath item <+: q ∧ Writes items q v) := by
  constructor
  · rintro ⟨earlier, i, later, hitems, rfl, rfl, hlater⟩
    rcases later.eq_nil_or_concat with rfl | ⟨later, j, rfl⟩
    · have hlast := List.append_inj' hitems rfl
      rw [List.singleton_inj.1 hlast.2]
      exact .inl ⟨rfl, rfl⟩
    · rw [List.concat_eq_append, ← List.cons_append, ← List.append_assoc] at hitems
      obtain ⟨rfl, hj⟩ := List.append_inj' hitems rfl
      rw [List.singleton_inj.1 hj]
      rw [List.concat_eq_append, List.forall_mem_append] at hlater
      exact .inr ⟨hlater.2 j (by simp), earlier, i, later, rfl, rfl, rfl, hlater.1⟩
  · rintro (⟨rfl, rfl⟩ | ⟨hfree, earlier, i, later, rfl, rfl, rfl, hlater⟩)
    · exact ⟨items, item, [], rfl, rfl, rfl, by simp⟩
    · refine ⟨earlier, i, later ++ [item], by simp, rfl, rfl, ?_⟩
      exact List.forall_mem_append.2 ⟨hlater, by simpa using hfree⟩

theorem namespaceOf_concat (items : List String) (item : String) :
    namespaceOf (items ++ [item]) = (namespaceOf items).bind (assignItem · item) := by
  rw [namespaceOf, List.foldlM_append, ← namespaceOf]
  rcases namespaceOf items with e | entries
  · rfl
  · change (assignItem entries item).bind pure = assignItem entries item
    cases assignItem entries item <;> rfl

/-- The leaves of a namespace are what the items write. -/
theorem leadsTo_namespaceOf {names : List (Value × Value)} (h : namespaceOf items = .ok names) :
    LeadsTo names q v ↔ Writes items q v := by
  induction items using List.reverseRecOn generalizing names q v with
  | nil =>
    cases h
    exact iff_of_false not_leadsTo_of_empty not_writes_nil
  | append_singleton items item ih =>
    rw [namespaceOf_concat] at h
    obtain ⟨entries, hentries, hitem⟩ := bind_eq_ok_iff.1 h
    rw [leadsTo_assignItem hitem, writes_concat, ih hentries]

/-- Items are refused if and only if one of them is no assignment or passes what is written
before. -/
theorem exists_namespaceOf_iff : (∃ names, namespaceOf items = .ok names) ↔
    (∀ item ∈ items, IsAssignment item) ∧ ∀ earlier item, earlier ++ [item] <+: items →
      ∀ q v, q <+: itemPath item → q ≠ itemPath item → ¬Writes earlier q v := by
  induction items using List.reverseRecOn with
  | nil => exact iff_of_true ⟨[], rfl⟩ ⟨by simp, by simp⟩
  | append_singleton items last ih =>
    rw [namespaceOf_concat]
    constructor
    · rintro ⟨names, h⟩
      obtain ⟨entries, hentries, hnames⟩ := bind_eq_ok_iff.1 h
      obtain ⟨hall, hfree⟩ := ih.1 ⟨entries, hentries⟩
      obtain ⟨hlast, hlastFree⟩ := exists_assignItem_iff.1 ⟨names, hnames⟩
      refine ⟨List.forall_mem_append.2 ⟨hall, by simpa using hlast⟩, ?_⟩
      intro earlier item hearlier q v hq hne
      rcases List.prefix_concat_iff.1 hearlier with heq | hearlier
      · obtain ⟨rfl, hitem⟩ := List.append_inj' heq rfl
        rw [List.singleton_inj.1 hitem] at hq hne
        rw [← leadsTo_namespaceOf hentries]
        exact hlastFree q v hq hne
      · exact hfree earlier item hearlier q v hq hne
    · rintro ⟨hall, hfree⟩
      rw [List.forall_mem_append] at hall
      obtain ⟨entries, hentries⟩ := ih.2 ⟨hall.1, fun earlier item hearlier =>
        hfree earlier item (hearlier.trans (List.prefix_append items [last]))⟩
      have hlastFree : ∀ q v, q <+: itemPath last → q ≠ itemPath last → ¬LeadsTo entries q v := by
        intro q v hq hne
        rw [leadsTo_namespaceOf hentries]
        exact hfree items last List.prefix_rfl q v hq hne
      obtain ⟨names, hnames⟩ := exists_assignItem_iff.2 ⟨hall.2 last (by simp), hlastFree⟩
      exact ⟨names, bind_eq_ok_iff.2 ⟨entries, hentries, hnames⟩⟩

/-- Items are accepted if none goes further than one before it. -/
theorem exists_namespaceOf_of_pairwise (hall : ∀ item ∈ items, IsAssignment item)
    (h : items.Pairwise fun i j => itemPath i <+: itemPath j → itemPath i = itemPath j) :
    ∃ names, namespaceOf items = .ok names := by
  refine exists_namespaceOf_iff.2 ⟨hall, fun earlier item hearlier q v hq hne hwrites => ?_⟩
  obtain ⟨i, hi, rfl⟩ := exists_mem_of_writes hwrites
  have hpair : [i, item].Sublist items :=
    ((List.singleton_sublist.2 hi).append (List.Sublist.refl [item])).trans hearlier.sublist
  exact hne (List.pairwise_pair.1 (h.sublist hpair) hq)

/-! ### Paths in expressions -/

section Evaluation

open Expression

variable {names : Namespace} {log : List Query}

theorem member?_of_bound? {host : Host} {name : String} {w : Value} (h : bound? name w = some v) :
    member? host w name = pure (some v) := by
  cases w with
  | dict entries => exact congrArg pure h
  | _ => cases h

theorem eval_members {t : Tree} {w : Value} (ht : eval names t log = .ok w log)
    {rest : List String} (hreach : reach? w rest = some v) :
    eval names (rest.foldl .member t) log = .ok v log := by
  induction rest generalizing t w with
  | nil => rwa [← Option.some.inj hreach]
  | cons n rest ih =>
    obtain ⟨x, hbound, hx⟩ := Option.bind_eq_some_iff.1 hreach
    refine ih ?_ hx
    rw [eval, bind_of_ok ht, member?_of_bound? hbound]
    rfl

/-- Expressions see what a path leads to, and ask the host for nothing. -/
theorem evaluate_path {path : List String} (hne : path ≠ []) (h : ∀ n ∈ path, IsIdentifier n)
    (hreach : reach? (.dict names.entries) path = some v) :
    evaluate (".".intercalate path) names = ⟨[], .ok v⟩ := by
  obtain ⟨first, rest, rfl⟩ := List.exists_cons_of_ne_nil hne
  obtain ⟨w, hlookup, hw⟩ := Option.bind_eq_some_iff.1 hreach
  have hfirst : eval names (.name first) [] = .ok w [] := by
    have hlookup : lookup? names.entries first = some w := hlookup
    rw [eval, hlookup]
    rfl
  have heval : (eval names (pathTree first rest)).run [] = .ok v [] := eval_members hfirst hw
  rw [evaluate, Outcome.ofText, parse_path h]
  dsimp only
  rw [Outcome.of, heval]

end Evaluation

/-- Items make a namespace if and only if all of them are assignments and none passes a scalar that
is written before. Its scalars are those that are written, and expressions see them, whatever the
host. -/
theorem namespaceOf_lastWrites (items : List String) :
    ((∃ names, namespaceOf items = .ok names) ↔
      (∀ item ∈ items, '=' ∈ item.toList ∧ "" ∉ itemPath item) ∧
        ∀ earlier item, earlier ++ [item] <+: items →
          ∀ q v, q <+: itemPath item → q ≠ itemPath item → ¬Writes earlier q v) ∧
    ∀ names, namespaceOf items = .ok names → ∀ p v,
      (reach? (.dict names) p = some v ∧ v.IsScalar ↔ Writes items p v) ∧
        (Writes items p v → (∀ n ∈ p, Expression.IsIdentifier n) →
          ∀ host, Expression.evaluate (".".intercalate p) ⟨names, host⟩ = ⟨[], .ok v⟩) := by
  refine ⟨exists_namespaceOf_iff, fun names hnames p v => ?_⟩
  have hleaf := leadsTo_namespaceOf hnames (q := p) (v := v)
  refine ⟨⟨?_, ?_⟩, ?_⟩
  · rintro ⟨hreach, hscalar⟩
    exact hleaf.1 ⟨hreach, hscalar.isLeaf⟩
  · intro hwrites
    refine ⟨(hleaf.2 hwrites).1, ?_⟩
    obtain ⟨earlier, item, later, -, -, rfl, -⟩ := hwrites
    exact isScalar_itemValue item
  · intro hwrites hnamed host
    refine evaluate_path ?_ hnamed (hleaf.2 hwrites).1
    obtain ⟨earlier, item, later, -, rfl, -⟩ := hwrites
    exact itemPath_ne_nil item

/-- An item for `a` replaces what is below `a`, and of two items for `c.d` the later one counts,
which has blanks around its names. -/
theorem namespaceOf_lastWrites_replaced :
    ∃ names, namespaceOf ["a.b=1", "a=true", "c.d=x", " c . d =null"] = .ok names ∧
      reach? (.dict names) ["a"] = some (.bool true) ∧
      ∀ host, Expression.evaluate "c.d" ⟨names, host⟩ = ⟨[], .ok .null⟩ := by
  obtain ⟨names, hnames⟩ :
      ∃ names, namespaceOf ["a.b=1", "a=true", "c.d=x", " c . d =null"] = .ok names :=
    exists_namespaceOf_of_pairwise (by decide) (by decide)
  have hspec := (namespaceOf_lastWrites _).2 names hnames
  refine ⟨names, hnames, ?_, ?_⟩
  · have hwrites : Writes ["a.b=1", "a=true", "c.d=x", " c . d =null"] ["a"] (.bool true) :=
      ⟨["a.b=1"], "a=true", _, rfl, by decide, by rw [itemValue]; rfl, by decide⟩
    exact ((hspec ["a"] (.bool true)).1.2 hwrites).1
  · have hwrites : Writes ["a.b=1", "a=true", "c.d=x", " c . d =null"] ["c", "d"] .null :=
      ⟨["a.b=1", "a=true", "c.d=x"], " c . d =null", [], rfl, by decide,
        by rw [itemValue]; rfl, by simp⟩
    have hnamed : ∀ n ∈ ["c", "d"], Expression.IsIdentifier n := by
      simp only [List.forall_mem_cons, List.not_mem_nil, false_implies, implies_true, and_true]
      exact ⟨⟨⟨'c', [], by decide, by decide, by simp⟩, by decide⟩,
        ⟨⟨'d', [], by decide, by decide, by simp⟩, by decide⟩⟩
    exact (hspec ["c", "d"] .null).2 hwrites hnamed

end CommandLine

end ConditionalStyle
