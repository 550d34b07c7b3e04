import ConditionalStyle.Proofs.Decimal.Length
import ConditionalStyle.Settings.Options

/-!
# What loading settings comes to

Settings are dynamic values: a file may hold anything where a mapping, a name or a number is
expected. Loading them gives options, or it gives an error that reports a fault of the settings. The
options have the limit that the environment gives, or else the one of the file, or else the usual
one.

There are two exceptions, in which loading ends in an error that is no report, whatever the
environment says. Unknown options are reported by their names, and an option whose name is no text
has none to be reported by. A limit that is refused is reported by what it looks like, and an
integer of too many digits in it has no looks. An integer of the environment is never that long.

## Main definitions

* `optionsOf`, `overriding?`, `settledLimit?`: what a file and the environment say of the limit.
* `Faulty`: the faults that errors report.
* `HasUnnamedOption`, `HasUnshowableLimit`: the exceptions.
* `Yields`: steps that give a result with some property or an error of some kind.

## Main statements

* `sectionOf_yields`, `ofEntries_yields`, `withEnvironment_yields`: the steps of loading.
* `ofFile_outcomes`: how loading ends.
-/

namespace ConditionalStyle.Settings

open Options

/-! ### What settings say -/

/-- A value that is taken as a mapping: a dictionary, or a value that stands for nothing. -/
def IsMapping (v : Value) : Prop :=
  v.isFalsy = true ∨ ∃ entries, v = .dict entries

/-- The options in the section of the compiler, if a file has such a section. -/
def optionsOf : Option Value → List (Value × Value)
  | some (.dict entries) =>
    match Value.lookup? entries "compiler" with
    | some (.dict options) => options
    | _ => []
  | _ => []

/-- A file with an option whose name is no text. -/
def HasUnnamedOption (file? : Option Value) : Prop :=
  ∃ e ∈ optionsOf file?, name? e.1 = none

/-- A file that gives nothing but the limit, which is no positive integer and cannot be shown. -/
def HasUnshowableLimit (file? : Option Value) : Prop :=
  (∀ e ∈ optionsOf file?, e.1 = .text limitName) ∧
    ∃ v, Value.lookup? (optionsOf file?) limitName = some v ∧ v.isShowable = false ∧
      ∀ n, v = .int n → n < 1

/-- A file whose faults, if there are any, can be reported. -/
def IsReportable (file? : Option Value) : Prop :=
  ¬HasUnnamedOption file? ∧ ¬HasUnshowableLimit file?

/-- The variable of the environment, if it is set and not blank. -/
def overriding? (override? : Option String) : Option String :=
  override?.filter fun raw => !(Text.strip raw).isEmpty

/-- The limit that settings give: by the environment, or else by the file, or else the usual one. -/
def settledLimit? (file? : Option Value) (override? : Option String) : Option Int :=
  match overriding? override? with
  | some raw => Decimal.readInt? (Text.strip raw)
  | none =>
    match Value.lookup? (optionsOf file?) limitName with
    | none => some Options.default.concatLimit
    | some (.int n) => some n
    | some _ => none

/-- The faults of settings, each with the error that reports it. The errors of an option without a
name and of a limit without looks report none of them. -/
inductive Faulty (path : String) (file? : Option Value) (override? : Option String) :
    ConfigError → Prop
  | notMapping {file : Value} (h : file? = some file) (hfile : ¬IsMapping file) :
      Faulty path file? override? (.notMapping path)
  | sectionNotMapping {entries : List (Value × Value)} {v : Value}
      (h : file? = some (.dict entries)) (hv : Value.lookup? entries "compiler" = some v)
      (hsection : ¬IsMapping v) : Faulty path file? override? (.sectionNotMapping path)
  | unknownOptions {names : List String} (hne : names ≠ [])
      (hnames : ∀ name, name ∈ names ↔
        ∃ k v, (k, v) ∈ optionsOf file? ∧ k ≠ .text limitName ∧ name? k = some name) :
      Faulty path file? override? (.unknownOptions names)
  | notInteger {v : Value} (h : Value.lookup? (optionsOf file?) limitName = some v)
      (hv : ∀ n, v ≠ .int n) : Faulty path file? override? (.notInteger v.display)
  | tooSmall {n : Int} (h : Value.lookup? (optionsOf file?) limitName = some (.int n))
      (hn : n < 1) : Faulty path file? override? (.tooSmall n)
  | overrideNotInteger {raw : String} (h : overriding? override? = some raw)
      (hraw : Decimal.readInt? (Text.strip raw) = none) :
      Faulty path file? override? (.environmentNotInteger (Text.display raw))
  | overrideTooSmall {raw : String} {n : Int} (h : overriding? override? = some raw)
      (hraw : Decimal.readInt? (Text.strip raw) = some n) (hn : n < 1) :
      Faulty path file? override? (.tooSmall n)

theorem optionsOf_of_not_dict {file : Value} (h : ∀ entries, file ≠ .dict entries) :
    optionsOf (some file) = [] := by
  cases file with
  | dict entries => exact absurd rfl (h entries)
  | _ => rfl

theorem optionsOf_of_lookup? {entries : List (Value × Value)} {v : Value}
    (h : Value.lookup? entries "compiler" = some v)
    (hv : ∀ options, v = .dict options → options = []) :
    optionsOf (some (.dict entries)) = [] := by
  rw [optionsOf, h]
  cases v with
  | dict options => exact hv options rfl
  | _ => rfl

theorem settledLimit?_of_file {file? : Option Value} {override? : Option String} {n : Nat}
    (h : overriding? override? = none)
    (hlimit : (Value.lookup? (optionsOf file?) limitName).getD
      (.int Options.default.concatLimit) = .int n) :
    settledLimit? file? override? = some (n : Int) := by
  rw [settledLimit?, h]
  cases hlookup : Value.lookup? (optionsOf file?) limitName with
  | none =>
    rw [hlookup] at hlimit
    exact congrArg some (Value.int.inj hlimit)
  | some v =>
    rw [hlookup] at hlimit
    obtain rfl : v = .int n := hlimit
    rfl

/-! ### How a step ends -/

section Yields

variable {ε α β : Type} {kind : ε → Prop} {post : α → Prop}

/-- A step that gives a result with a property, or an error of a kind. -/
inductive Yields (kind : ε → Prop) (post : α → Prop) : Except ε α → Prop
  | ok {a : α} (h : post a) : Yields kind post (.ok a)
  | error {e : ε} (h : kind e) : Yields kind post (.error e)

theorem Yields.bind {post' : β → Prop} {x : Except ε α} {f : α → Except ε β}
    (hx : Yields kind post x) (hf : ∀ a, post a → Yields kind post' (f a)) :
    Yields kind post' (x >>= f) := by
  cases hx with
  | ok h => exact hf _ h
  | error h => exact .error h

theorem Yields.imp {kind' : ε → Prop} {post' : α → Prop} {x : Except ε α}
    (hx : Yields kind post x) (hkind : ∀ e, kind e → kind' e) (hpost : ∀ a, post a → post' a) :
    Yields kind' post' x := by
  cases hx with
  | ok h => exact .ok (hpost _ h)
  | error h => exact .error (hkind _ h)

end Yields

/-! ### The limit -/

theorem ofInt_yields (n : Int) :
    Yields (fun e => n < 1 ∧ (e = .tooSmall n ∧ Decimal.isWritable n = true ∨
        e = .unshowable ∧ Decimal.isWritable n = false))
      (fun options => (options.concatLimit : Int) = n) (ofInt n) := by
  rw [ofInt]
  split
  · exact .ok (Int.toNat_of_nonneg (by omega))
  · split
    · next hn => exact .error ⟨by omega, .inl ⟨rfl, hn⟩⟩
    · next hn => exact .error ⟨by omega, .inr ⟨rfl, Bool.eq_false_iff.2 hn⟩⟩

/-- A limit is taken, or it is reported, or it cannot be shown. -/
theorem ofLimit_yields (v : Value) :
    Yields (fun e => (∀ n, v = .int n → n < 1) ∧
        (v.isShowable = true ∧ (e = .notInteger v.display ∧ (∀ n, v ≠ .int n) ∨
            ∃ n, e = .tooSmall n ∧ v = .int n) ∨
          e = .unshowable ∧ v.isShowable = false))
      (fun options => v = .int options.concatLimit) (ofLimit v) := by
  by_cases hv : ∃ n, v = .int n
  · obtain ⟨n, rfl⟩ := hv
    refine (ofInt_yields n).imp ?_ ?_
    · rintro e ⟨hn, hcases⟩
      refine ⟨fun m hm => Value.int.inj hm ▸ hn, ?_⟩
      rcases hcases with ⟨rfl, hwritable⟩ | ⟨rfl, hlong⟩
      · exact .inl ⟨hwritable, .inr ⟨n, rfl, rfl⟩⟩
      · exact .inr ⟨rfl, hlong⟩
    · rintro options rfl
      rfl
  · have hnot : ∀ n, v ≠ .int n := fun n hn => hv ⟨n, hn⟩
    have hsmall : ∀ n, v = .int n → n < 1 := fun n hn => absurd hn (hnot n)
    by_cases hshow : v.isShowable = true
    · have hrefused : ofLimit v = .error (.notInteger v.display) := by
        rw [ofLimit, Value.display?, if_pos hshow]
        exact fun n => hnot n
      rw [hrefused]
      exact .error ⟨hsmall, .inl ⟨hshow, .inl ⟨rfl, hnot⟩⟩⟩
    · have hrefused : ofLimit v = .error .unshowable := by
        rw [ofLimit, Value.display?, if_neg hshow]
        exact fun n => hnot n
      rw [hrefused]
      exact .error ⟨hsmall, .inr ⟨rfl, Bool.eq_false_iff.2 hshow⟩⟩

/-! ### Unknown options -/

/-- The keys of a section that are not the name of the limit. -/
def unknownKeys (entries : List (Value × Value)) : List Value :=
  (entries.map (·.1)).filter fun k => !Value.isKey limitName k

theorem mem_unknownKeys {entries : List (Value × Value)} {k : Value} :
    k ∈ unknownKeys entries ↔ k ≠ .text limitName ∧ ∃ v, (k, v) ∈ entries := by
  have hkey : (!Value.isKey limitName k) = true ↔ k ≠ .text limitName := by
    rw [Bool.not_eq_true', ← Bool.not_eq_true, Value.isKey_iff]
  rw [unknownKeys, List.mem_filter, hkey, and_comm]
  simp

/-- Either all keys have names, or one of them has none. -/
theorem mapM_name?_cases (keys : List Value) :
    (∃ names, keys.mapM name? = some names ∧ keys.map name? = names.map some) ∨
      keys.mapM name? = none ∧ ∃ k ∈ keys, name? k = none := by
  induction keys with
  | nil => exact .inl ⟨[], rfl, rfl⟩
  | cons k keys ih =>
    rw [List.mapM_cons]
    cases hname : name? k with
    | none => exact .inr ⟨rfl, k, List.mem_cons_self, hname⟩
    | some name =>
      rcases ih with ⟨names, hnames, hkeys⟩ | ⟨hnone, k', hk', hname'⟩
      · rw [hnames]
        exact .inl ⟨name :: names, rfl, by rw [List.map_cons, List.map_cons, hname, hkeys]⟩
      · rw [hnone]
        exact .inr ⟨rfl, k', List.mem_cons_of_mem k hk', hname'⟩

/-- The names of keys that all have one. -/
theorem mem_names_iff {keys : List Value} {names : List String}
    (h : keys.map name? = names.map some) {name : String} :
    name ∈ names ↔ ∃ k ∈ keys, name? k = some name := by
  have hmem : some name ∈ keys.map name? ↔ name ∈ names := by simp [h]
  rw [← hmem, List.mem_map]

section OfEntries

variable {entries : List (Value × Value)}

theorem ofEntries_of_absent (hknown : unknownKeys entries = [])
    (hlimit : Value.lookup? entries limitName = none) : ofEntries entries = .ok .default := by
  rw [ofEntries, hlimit]
  exact if_pos (List.isEmpty_iff.2 hknown)

theorem ofEntries_of_limit {v : Value} (hknown : unknownKeys entries = [])
    (hlimit : Value.lookup? entries limitName = some v) : ofEntries entries = ofLimit v := by
  rw [ofEntries, hlimit]
  exact if_pos (List.isEmpty_iff.2 hknown)

theorem ofEntries_of_unnamed (h : (unknownKeys entries).mapM name? = none) :
    ofEntries entries = .error .unnamedOption := by
  have hunknown : ¬(unknownKeys entries).isEmpty = true := by
    intro hempty
    rw [List.isEmpty_iff.1 hempty] at h
    cases h
  rw [unknownKeys] at h hunknown
  rw [ofEntries, h]
  exact if_neg hunknown

theorem ofEntries_of_named {names : List String} (hunknown : unknownKeys entries ≠ [])
    (h : (unknownKeys entries).mapM name? = some names) :
    ∃ sorted, sorted.Perm names ∧ ofEntries entries = .error (.unknownOptions sorted) := by
  refine ⟨_, List.mergeSort_perm names fun a b => !(decide (b < a)), ?_⟩
  rw [unknownKeys] at h
  rw [ofEntries, h]
  exact if_neg fun hempty => hunknown (List.isEmpty_iff.1 hempty)

end OfEntries

/-! ### The steps of loading -/

variable (path : String) (file? : Option Value) (override? : Option String)

/-- The error of an exception where there is one, and the report of a fault where there is none. -/
def Refused (e : ConfigError) : Prop :=
  e = .unnamedOption ∧ HasUnnamedOption file? ∨ e = .unshowable ∧ HasUnshowableLimit file? ∨
    Faulty path file? override? e ∧ IsReportable file?

theorem hasUnnamedOption_iff :
    HasUnnamedOption file? ↔ ∃ k ∈ unknownKeys (optionsOf file?), name? k = none := by
  constructor
  · rintro ⟨⟨k, v⟩, he, hname⟩
    refine ⟨k, mem_unknownKeys.2 ⟨?_, v, he⟩, hname⟩
    rintro rfl
    cases hname
  · rintro ⟨k, hk, hname⟩
    obtain ⟨-, v, hv⟩ := mem_unknownKeys.1 hk
    exact ⟨(k, v), hv, hname⟩

theorem hasUnshowableLimit_iff :
    HasUnshowableLimit file? ↔ unknownKeys (optionsOf file?) = [] ∧
      ∃ v, Value.lookup? (optionsOf file?) limitName = some v ∧ v.isShowable = false ∧
        ∀ n, v = .int n → n < 1 := by
  rw [HasUnshowableLimit, List.eq_nil_iff_forall_not_mem]
  refine and_congr_left fun _ => ⟨fun h k hk => ?_, fun h e he => ?_⟩
  · obtain ⟨hne, v, hv⟩ := mem_unknownKeys.1 hk
    exact hne (h (k, v) hv)
  · by_contra hne
    exact h e.1 (mem_unknownKeys.2 ⟨hne, e.2, he⟩)

theorem isReportable_of_nil (h : optionsOf file? = []) : IsReportable file? := by
  refine ⟨?_, ?_⟩
  · rintro ⟨e, he, -⟩
    rw [h] at he
    cases he
  · rintro ⟨-, v, hv, -⟩
    rw [h] at hv
    cases hv

theorem sectionOf_of_not_dict {file : Value} (h : ∀ entries, file ≠ .dict entries) :
    sectionOf path file = if file.isFalsy then .ok [] else .error (.notMapping path) := by
  unfold sectionOf
  by_cases hfalsy : file.isFalsy = true
  · rw [if_pos hfalsy, if_pos hfalsy]
    rfl
  · rw [if_neg hfalsy, if_neg hfalsy]
    cases file with
    | dict entries => exact absurd rfl (h entries)
    | _ => rfl

theorem sectionOf_dict (entries : List (Value × Value)) :
    Yields (fun e => e = .sectionNotMapping path ∧
        ∃ v, Value.lookup? entries "compiler" = some v ∧ ¬IsMapping v)
      (fun options => options = optionsOf (some (.dict entries)))
      (sectionOf path (.dict entries)) := by
  cases entries with
  | nil => exact .ok rfl
  | cons entry entries =>
    have hfull : ¬(Value.dict (entry :: entries)).isFalsy = true := by simp [Value.isFalsy]
    unfold sectionOf
    rw [if_neg hfull]
    dsimp only
    cases hsection : Value.lookup? (entry :: entries) "compiler" with
    | none => exact .ok (by rw [optionsOf, hsection])
    | some v =>
      dsimp only
      by_cases hfalsy : v.isFalsy = true
      · -- a dictionary that stands for nothing has no options
        rw [if_pos hfalsy]
        refine .ok (optionsOf_of_lookup? hsection ?_).symm
        rintro options rfl
        exact List.isEmpty_iff.1 hfalsy
      · rw [if_neg hfalsy]
        split
        · exact .ok (by rw [optionsOf, hsection])
        · next hdict =>
          refine .error ⟨rfl, v, rfl, ?_⟩
          rintro (hv | ⟨options, rfl⟩)
          · exact hfalsy hv
          · exact hdict options rfl

/-- The section of a file is that of its options, or one of the two mappings is none. -/
theorem sectionOf_yields (file : Value) :
    Yields (Refused path (some file) override?) (fun options => options = optionsOf (some file))
      (sectionOf path file) := by
  by_cases hdict : ∃ entries, file = .dict entries
  · obtain ⟨entries, rfl⟩ := hdict
    refine (sectionOf_dict path entries).imp ?_ fun _ h => h
    rintro e ⟨rfl, v, hsection, hv⟩
    have hnone : optionsOf (some (.dict entries)) = [] :=
      optionsOf_of_lookup? hsection fun options hoptions => absurd (.inr ⟨options, hoptions⟩) hv
    exact .inr (.inr ⟨.sectionNotMapping rfl hsection hv, isReportable_of_nil _ hnone⟩)
  · have hnot : ∀ entries, file ≠ .dict entries := fun entries h => hdict ⟨entries, h⟩
    have hnone : optionsOf (some file) = [] := optionsOf_of_not_dict hnot
    rw [sectionOf_of_not_dict path hnot]
    split
    · exact .ok hnone.symm
    · next hfalsy =>
      have hmapping : ¬IsMapping file := by
        rintro (h | h)
        · exact hfalsy h
        · exact hdict h
      exact .error (.inr (.inr ⟨.notMapping rfl hmapping, isReportable_of_nil _ hnone⟩))

/-- A report of unknown options lists their names, in whatever order. -/
theorem faulty_unknownOptions {names sorted : List String}
    (hunknown : unknownKeys (optionsOf file?) ≠ [])
    (hkeys : (unknownKeys (optionsOf file?)).map name? = names.map some)
    (hperm : sorted.Perm names) : Faulty path file? override? (.unknownOptions sorted) := by
  refine .unknownOptions ?_ fun name => ?_
  · rintro rfl
    rw [← hperm.nil_eq, List.map_nil] at hkeys
    exact hunknown (List.map_eq_nil_iff.1 hkeys)
  · rw [hperm.mem_iff, mem_names_iff hkeys]
    simp only [mem_unknownKeys]
    constructor
    · rintro ⟨k, ⟨hne, v, hv⟩, hname⟩
      exact ⟨k, v, hv, hne, hname⟩
    · rintro ⟨k, v, hv, hne, hname⟩
      exact ⟨k, ⟨hne, v, hv⟩, hname⟩

/-- If all options are known, they have a limit, which is taken or refused, or the usual one. -/
theorem ofEntries_yields_of_known (hknown : unknownKeys (optionsOf file?) = []) :
    Yields (Refused path file? override?)
      (fun options => IsReportable file? ∧
        (Value.lookup? (optionsOf file?) limitName).getD (.int Options.default.concatLimit) =
          .int options.concatLimit)
      (ofEntries (optionsOf file?)) := by
  have hnamed : ¬HasUnnamedOption file? := by
    rw [hasUnnamedOption_iff, hknown]
    simp
  cases hlimit : Value.lookup? (optionsOf file?) limitName with
  | none =>
    have hshown : ¬HasUnshowableLimit file? := by
      rintro ⟨-, v, hv, -⟩
      rw [hlimit] at hv
      cases hv
    rw [ofEntries_of_absent hknown hlimit]
    exact .ok ⟨⟨hnamed, hshown⟩, rfl⟩
  | some v =>
    -- there is only one limit, so that the exception is about this value
    have hiff : HasUnshowableLimit file? ↔ v.isShowable = false ∧ ∀ n, v = .int n → n < 1 := by
      rw [hasUnshowableLimit_iff]
      simp [hknown, hlimit]
    rw [ofEntries_of_limit hknown hlimit]
    refine (ofLimit_yields v).imp ?_ ?_
    · rintro e ⟨hsmall, ⟨hshow, hreport⟩ | ⟨rfl, hlong⟩⟩
      · have hshown : ¬HasUnshowableLimit file? := by simp [hiff, hshow]
        rcases hreport with ⟨rfl, hv⟩ | ⟨n, rfl, rfl⟩
        · exact .inr (.inr ⟨.notInteger hlimit hv, hnamed, hshown⟩)
        · exact .inr (.inr ⟨.tooSmall hlimit (hsmall n rfl), hnamed, hshown⟩)
      · exact .inr (.inl ⟨rfl, hiff.2 ⟨hlong, hsmall⟩⟩)
    · rintro options rfl
      have hpos := options.concatLimit_pos
      have hshown : ¬HasUnshowableLimit file? := by
        rw [hiff]
        rintro ⟨-, hsmall⟩
        have := hsmall _ rfl
        omega
      exact ⟨⟨hnamed, hshown⟩, rfl⟩

/-- The options of a section have its limit or the usual one. -/
theorem ofEntries_yields :
    Yields (Refused path file? override?)
      (fun options => IsReportable file? ∧
        (Value.lookup? (optionsOf file?) limitName).getD (.int Options.default.concatLimit) =
          .int options.concatLimit)
      (ofEntries (optionsOf file?)) := by
  by_cases hknown : unknownKeys (optionsOf file?) = []
  · exact ofEntries_yields_of_known path file? override? hknown
  rcases mapM_name?_cases (unknownKeys (optionsOf file?)) with
    ⟨names, hnames, hkeys⟩ | ⟨hnone, hunnamed⟩
  · have hnamed : ¬HasUnnamedOption file? := by
      rw [hasUnnamedOption_iff]
      rintro ⟨k, hk, hname⟩
      have hmem := List.mem_map_of_mem (f := name?) hk
      rw [hkeys, hname] at hmem
      simp at hmem
    have hshown : ¬HasUnshowableLimit file? := by
      rw [hasUnshowableLimit_iff]
      exact fun h => hknown h.1
    obtain ⟨sorted, hperm, hrefused⟩ := ofEntries_of_named hknown hnames
    rw [hrefused]
    have hfaulty := faulty_unknownOptions path file? override? hknown hkeys hperm
    exact .error (.inr (.inr ⟨hfaulty, hnamed, hshown⟩))
  · rw [ofEntries_of_unnamed hnone]
    exact .error (.inl ⟨rfl, (hasUnnamedOption_iff file?).2 hunnamed⟩)

theorem withEnvironment_of_none (h : overriding? override? = none) (options : Options) :
    options.withEnvironment override? = .ok options := by
  cases override? with
  | none => rfl
  | some raw =>
    have hblank : (Text.strip raw).isEmpty = true := by
      simpa [overriding?, Option.filter] using h
    exact if_pos hblank

/-- An environment that has a say settles the limit alone. -/
theorem withEnvironment_yields {raw : String} (h : overriding? override? = some raw)
    (options : Options) :
    Yields (Faulty path file? override?)
      (fun o => Decimal.readInt? (Text.strip raw) = some (o.concatLimit : Int))
      (options.withEnvironment override?) := by
  obtain ⟨rfl, hblank⟩ := Option.filter_eq_some_iff.1 h
  have hfull : ¬(Text.strip raw).isEmpty = true := by simpa using hblank
  unfold withEnvironment
  dsimp only
  rw [if_neg hfull]
  cases hraw : Decimal.readInt? (Text.strip raw) with
  | none => exact .error (.overrideNotInteger h hraw)
  | some n =>
    refine (ofInt_yields n).imp ?_ ?_
    · rintro e ⟨hn, ⟨rfl, -⟩ | ⟨-, hlong⟩⟩
      · exact .overrideTooSmall h hraw hn
      · rw [Decimal.isWritable_of_readInt? hraw] at hlong
        cases hlong
    · rintro o rfl
      rfl

theorem ofFile_yields :
    Yields (Refused path file? override?)
      (fun options => IsReportable file? ∧
        settledLimit? file? override? = some (options.concatLimit : Int))
      (ofFile path file? override?) := by
  have hrest (entries) (h : entries = optionsOf file?) :
      Yields (Refused path file? override?)
        (fun options => IsReportable file? ∧
          settledLimit? file? override? = some (options.concatLimit : Int))
        (ofEntries entries >>= fun options => options.withEnvironment override?) := by
    subst h
    refine (ofEntries_yields path file? override?).bind ?_
    rintro options ⟨hreportable, hlimit⟩
    cases hraw : overriding? override? with
    | none =>
      rw [withEnvironment_of_none override? hraw]
      exact .ok ⟨hreportable, settledLimit?_of_file hraw hlimit⟩
    | some raw =>
      refine (withEnvironment_yields path file? override? hraw options).imp ?_ ?_
      · exact fun e he => .inr (.inr ⟨he, hreportable⟩)
      · exact fun o ho => ⟨hreportable, by rwa [settledLimit?, hraw]⟩
  cases file? with
  | none => exact hrest [] rfl
  | some file => exact (sectionOf_yields path override? file).bind hrest

/-- How loading ends, for any value that a file holds, or no file, and any environment. A section
with an option whose name is no text ends in the error of an option without a name, and one whose
limit is refused and cannot be shown ends in the error of that. All other settings either have a
fault, and loading ends in the error that reports it, or they give options with a positive limit:
that of the environment if it is set and not blank, else that of the file if it has one, else the
usual one. -/
theorem ofFile_outcomes :
    HasUnnamedOption file? ∧ ofFile path file? override? = .error .unnamedOption ∨
    HasUnshowableLimit file? ∧ ofFile path file? override? = .error .unshowable ∨
      ¬HasUnnamedOption file? ∧ ¬HasUnshowableLimit file? ∧
        ((∃ e, ofFile path file? override? = .error e ∧ Faulty path file? override? e) ∨
          ∃ options, ofFile path file? override? = .ok options ∧ 1 ≤ options.concatLimit ∧
            settledLimit? file? override? = some (options.concatLimit : Int)) := by
  generalize hresult : ofFile path file? override? = result
  have hyields := hresult ▸ ofFile_yields path file? override?
  cases hyields with
  | @ok options h =>
    exact .inr (.inr ⟨h.1.1, h.1.2, .inr ⟨options, rfl, options.concatLimit_pos, h.2⟩⟩)
  | @error e h =>
    rcases h with ⟨rfl, hunnamed⟩ | ⟨rfl, hunshowable⟩ | ⟨hfaulty, hnamed, hshown⟩
    · exact .inl ⟨hunnamed, rfl⟩
    · exact .inr (.inl ⟨hunshowable, rfl⟩)
    · exact .inr (.inr ⟨hnamed, hshown, .inl ⟨e, rfl, hfaulty⟩⟩)

/-- The settings `compiler: {1: 2}`. -/
def numberedOption : Value :=
  .dict [(.text "compiler", .dict [(.int 1, .int 2)])]

/-- An option with a number for its name gives neither options nor the report of a fault. -/
theorem ofFile_numberedOption :
    ofFile "condcss.yaml" (some numberedOption) none = .error .unnamedOption ∧
      ¬((∃ e, ofFile "condcss.yaml" (some numberedOption) none = .error e ∧
          Faulty "condcss.yaml" (some numberedOption) none e) ∨
        ∃ options, ofFile "condcss.yaml" (some numberedOption) none = .ok options) := by
  have hresult : ofFile "condcss.yaml" (some numberedOption) none = .error .unnamedOption := rfl
  refine ⟨hresult, ?_⟩
  rw [hresult]
  rintro (⟨e, ⟨⟩, hfaulty⟩ | ⟨options, ⟨⟩⟩)
  cases hfaulty

end ConditionalStyle.Settings
