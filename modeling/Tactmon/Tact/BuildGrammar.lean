import Tactmon.Tact.ConfigLine

/-!
# Build configurations by their grammar

What `BuildConfig.parse` makes of the lines of a configuration.  `assigned` is
the configuration that the lines spell, the last one with a key winning, and
`handle_turn` compares one turn of the loop with it.  There are three ways out
of a turn, by what the line is: `Malformed` ends the call, `Overruns` leaves
the tokens, and any other line assigns its values.

So the parser keeps to the grammar as long as no line overruns in front of the
first malformed one (`parse_grammar_iff`).
-/

namespace Tactmon

open Binary Cxx Text Detail CursorReadable LawfulReadable

namespace BuildConfig

/-! ## What the lines spell -/

/-- A recognised key has the wrong number of values, or a size that is none. -/
def Malformed (key : Bytes) (values : List Bytes) : Prop :=
  (key = ascii "root" ∨ key = ascii "build-name") ∧ values.length ≠ 1 ∨
  (key = ascii "install" ∨ key = ascii "install-size" ∨ key = ascii "encoding" ∨
    key = ascii "encoding-size") ∧ values.length ≠ 1 ∧ values.length ≠ 2 ∨
  (key = ascii "install-size" ∨ key = ascii "encoding-size") ∧
    ∃ value ∈ values, readSize value = none

/-- A key of half a byte, or one key where the handler takes two. -/
def Overruns (key : Bytes) (values : List Bytes) : Prop :=
  key = ascii "root" ∧ (∃ value ∈ values, ¬ 2 ∣ value.length) ∨
  (key = ascii "install" ∨ key = ascii "encoding") ∧
    (values.length = 1 ∨ ∃ value ∈ values, ¬ 2 ∣ value.length)

instance (key : Bytes) (values : List Bytes) : Decidable (Malformed key values) :=
  inferInstanceAs (Decidable (_ ∨ _))

instance (key : Bytes) (values : List Bytes) : Decidable (Overruns key values) :=
  inferInstanceAs (Decidable (_ ∨ _))

/-- The bytes that the digits of a key spell. -/
def spelled (value : Bytes) : Bytes := (unhex value).toOption.getD []

/-- The number that a size spells. -/
def sized (value : Bytes) : UInt64 := (readSize value).getD 0

/-- The value number `i` of the last of the entries that have the key and as
many values. -/
def lastValue (key : Bytes) (i : Nat) (entries : List (Bytes × List Bytes)) : Option Bytes :=
  (entries.filterMap fun entry => if entry.1 = key then entry.2[i]? else none).getLast?

section Assigned

variable (entries : List (Bytes × List Bytes))

/-- What the entries make of a key. -/
def assignedKey (name : Bytes) (i : Nat) (key : Bytes) : Bytes :=
  ((lastValue name i entries).map spelled).getD key

/-- What the entries make of a size. -/
def assignedSize (name : Bytes) (i : Nat) (size : UInt64) : UInt64 :=
  ((lastValue name i entries).map sized).getD size

/-- What the entries make of a manifest that the configuration names. -/
def assignedRef (name sizeName : Bytes) (ref : ManifestRef) : ManifestRef where
  key := ⟨assignedKey entries name 0 ref.key.contentKey,
    assignedKey entries name 1 ref.key.encodingKey⟩
  size := (assignedSize entries sizeName 0 ref.size.1, assignedSize entries sizeName 1 ref.size.2)

end Assigned

/-- The configuration in which each field has the value of the last entry that
assigns it. -/
def assigned (config : BuildConfig) (entries : List (Bytes × List Bytes)) : BuildConfig where
  root := assignedKey entries (ascii "root") 0 config.root
  install := assignedRef entries (ascii "install") (ascii "install-size") config.install
  encoding := assignedRef entries (ascii "encoding") (ascii "encoding-size") config.encoding
  buildName := (lastValue (ascii "build-name") 0 entries).getD config.buildName

/-! A later entry goes over an earlier one. -/

section Cons

variable (entry : Bytes × List Bytes) (entries : List (Bytes × List Bytes))

theorem lastValue_cons (key : Bytes) (i : Nat) :
    lastValue key i (entry :: entries) =
      (lastValue key i entries).or (lastValue key i [entry]) := by
  rw [lastValue, lastValue, lastValue, List.filterMap_cons, List.filterMap_cons, List.filterMap_nil]
  cases hentry : (if entry.1 = key then entry.2[i]? else none) with
  | none => exact (Option.or_none).symm
  | some value =>
      rw [List.getLast?_cons]
      cases (entries.filterMap fun entry =>
        if entry.1 = key then entry.2[i]? else none).getLast? with
      | none => rfl
      | some later => rfl

theorem getD_map_or {α β : Type} (f : α → β) (later earlier : Option α) (b : β) :
    ((later.or earlier).map f).getD b = (later.map f).getD ((earlier.map f).getD b) := by
  cases later with
  | none => rfl
  | some a => rfl

theorem assignedKey_cons (name : Bytes) (i : Nat) (key : Bytes) :
    assignedKey (entry :: entries) name i key =
      assignedKey entries name i (assignedKey [entry] name i key) := by
  rw [assignedKey, lastValue_cons, getD_map_or]
  rfl

theorem assignedSize_cons (name : Bytes) (i : Nat) (size : UInt64) :
    assignedSize (entry :: entries) name i size =
      assignedSize entries name i (assignedSize [entry] name i size) := by
  rw [assignedSize, lastValue_cons, getD_map_or]
  rfl

theorem assignedRef_cons (name sizeName : Bytes) (ref : ManifestRef) :
    assignedRef (entry :: entries) name sizeName ref =
      assignedRef entries name sizeName (assignedRef [entry] name sizeName ref) := by
  simp only [assignedRef, assignedKey_cons entry entries, assignedSize_cons entry entries]

theorem assigned_cons (config : BuildConfig) :
    assigned config (entry :: entries) = assigned (assigned config [entry]) entries := by
  have hname : (lastValue (ascii "build-name") 0 (entry :: entries)).getD config.buildName =
      (lastValue (ascii "build-name") 0 entries).getD
        ((lastValue (ascii "build-name") 0 [entry]).getD config.buildName) := by
    rw [lastValue_cons]
    cases lastValue (ascii "build-name") 0 entries with
    | none => rfl
    | some value => rfl
  simp only [assigned, assignedKey_cons entry entries, assignedRef_cons entry entries, hname]

end Cons

/-- An entry that no handler takes assigns nothing. -/
theorem lastValue_of_ne {key name : Bytes} (h : key ≠ name) (i : Nat) (values : List Bytes) :
    lastValue name i [(key, values)] = none := by
  rw [lastValue, List.filterMap_cons, if_neg h]
  rfl

theorem lastValue_self (name : Bytes) (i : Nat) (values : List Bytes) :
    lastValue name i [(name, values)] = values[i]? := by
  rw [lastValue, List.filterMap_cons, if_pos rfl]
  cases values[i]? with
  | none => rfl
  | some value => rfl

/-! ## One turn -/

theorem unhex_of_even {value : Bytes} (h : 2 ∣ value.length) :
    unhex value = .ok (spelled value) := by
  obtain ⟨data, hdata⟩ := (unhex_ok_iff value).mpr h
  rw [spelled, hdata]
  rfl

theorem unhex_of_odd : ∀ {value : Bytes}, ¬ 2 ∣ value.length → unhex value = .error .outOfBounds
  | [], h => absurd (Nat.dvd_zero 2) h
  | [_], _ => rfl
  | _ :: _ :: value, h => by
      rw [List.length_cons, List.length_cons, Nat.dvd_add_self_right (m := 2)] at h
      rw [unhex, unhex_of_odd h]
      rfl

/-- What one turn does with an entry. -/
structure Turn (config : BuildConfig) (key : Bytes) (values : List Bytes)
    (result : Exec (Option BuildConfig)) : Prop where
  malformed : Malformed key values → result = .ok none
  overruns : ¬ Malformed key values → Overruns key values → result = .error .outOfBounds
  assigns : ¬ Malformed key values → ¬ Overruns key values →
    result = .ok (some (assigned config [(key, values)]))

section Handlers

variable {config : BuildConfig} {values : List Bytes}

theorem Turn.of_malformed {key : Bytes} {result : Exec (Option BuildConfig)}
    (h : Malformed key values) (hresult : result = .ok none) : Turn config key values result where
  malformed _ := hresult
  overruns hnot _ := absurd h hnot
  assigns hnot _ := absurd h hnot

theorem turn_root :
    Turn config (ascii "root") values (rootHandler config (ascii "root" :: values)) := by
  have hmalformed : Malformed (ascii "root") values ↔ values.length ≠ 1 := by
    simp +decide [Malformed]
  have hoverruns : Overruns (ascii "root") values ↔ ∃ value ∈ values, ¬ 2 ∣ value.length := by
    simp +decide [Overruns]
  by_cases hlength : values.length = 1
  · obtain ⟨value, rfl⟩ := List.length_eq_one_iff.mp hlength
    have hroot : rootHandler config [ascii "root", value] =
        (unhex value >>= fun root => .ok (some { config with root })) := rfl
    have hassigned : assigned config [(ascii "root", [value])] =
        { config with root := spelled value } := by
      simp +decide [assigned, assignedKey, assignedRef, assignedSize, lastValue_self,
        lastValue_of_ne]
    rw [hroot]
    refine ⟨fun h => absurd hlength (hmalformed.mp h), fun _ h => ?_, fun _ h => ?_⟩
    · obtain ⟨v, hv, hodd⟩ := hoverruns.mp h
      cases List.mem_singleton.mp hv
      rw [unhex_of_odd hodd]
      rfl
    · have heven : 2 ∣ value.length :=
        Classical.not_not.mp fun hodd => h (hoverruns.mpr ⟨value, List.mem_singleton_self _, hodd⟩)
      rw [unhex_of_even heven, hassigned]
      rfl
  · have hne : (ascii "root" :: values).length ≠ 2 := fun h => hlength (Nat.succ.inj h)
    exact .of_malformed (hmalformed.mpr hlength) (if_pos hne)

theorem turn_buildName :
    Turn config (ascii "build-name") values
      (buildNameHandler config (ascii "build-name" :: values)) := by
  have hmalformed : Malformed (ascii "build-name") values ↔ values.length ≠ 1 := by
    simp +decide [Malformed]
  have hoverruns : ¬ Overruns (ascii "build-name") values := by
    simp +decide [Overruns]
  by_cases hlength : values.length = 1
  · obtain ⟨value, rfl⟩ := List.length_eq_one_iff.mp hlength
    have hassigned : assigned config [(ascii "build-name", [value])] =
        { config with buildName := value } := by
      simp +decide [assigned, assignedKey, assignedRef, assignedSize, lastValue_self,
        lastValue_of_ne]
    exact ⟨fun h => absurd hlength (hmalformed.mp h), fun _ h => absurd h hoverruns,
      fun _ _ => by rw [hassigned]; rfl⟩
  · have hne : (ascii "build-name" :: values).length ≠ 2 := fun h => hlength (Nat.succ.inj h)
    exact .of_malformed (hmalformed.mpr hlength) (if_pos hne)

/-! What is malformed, and what overruns, for the keys of one manifest. -/

section Refs

variable (values) {name : Bytes}

theorem malformed_keys (h : name = ascii "install" ∨ name = ascii "encoding") :
    Malformed name values ↔ values.length ≠ 1 ∧ values.length ≠ 2 := by
  rcases h with rfl | rfl <;> simp +decide [Malformed]

theorem overruns_keys (h : name = ascii "install" ∨ name = ascii "encoding") :
    Overruns name values ↔
      values.length = 1 ∨ ∃ value ∈ values, ¬ 2 ∣ value.length := by
  rcases h with rfl | rfl <;> simp +decide [Overruns]

theorem malformed_sizes (h : name = ascii "install-size" ∨ name = ascii "encoding-size") :
    Malformed name values ↔ (values.length ≠ 1 ∧ values.length ≠ 2) ∨
      ∃ value ∈ values, readSize value = none := by
  rcases h with rfl | rfl <;> simp +decide [Malformed]

theorem overruns_sizes (h : name = ascii "install-size" ∨ name = ascii "encoding-size") :
    ¬ Overruns name values := by
  rcases h with rfl | rfl <;> simp +decide [Overruns]

end Refs

/-- The handler of a pair of keys.  With one value there is no second token to
take the encoding key from. -/
theorem turn_keys {name : Bytes} (set : KeyPair → BuildConfig)
    (hname : name = ascii "install" ∨ name = ascii "encoding")
    (hassigned : ∀ v w, assigned config [(name, [v, w])] = set ⟨spelled v, spelled w⟩) :
    Turn config name values (keysHandler set (name :: values)) := by
  have hmalformed := malformed_keys values hname
  have hoverruns := overruns_keys values hname
  match values with
  | [] => exact .of_malformed (hmalformed.mpr ⟨by decide, by decide⟩) rfl
  | [v] =>
      have hkeys : keysHandler set [name, v] =
          (unhex v >>= fun _ => .error .outOfBounds) := rfl
      refine ⟨fun h => absurd rfl (hmalformed.mp h).1, fun _ _ => ?_,
        fun _ h => absurd (hoverruns.mpr (Or.inl rfl)) h⟩
      rw [hkeys]
      rcases Classical.em (2 ∣ v.length) with heven | hodd
      · rw [unhex_of_even heven, Exec.ok_bind]
      · rw [unhex_of_odd hodd, Exec.error_bind]
  | [v, w] =>
      have hkeys : keysHandler set [name, v, w] =
          (unhex v >>= fun contentKey => unhex w >>= fun encodingKey =>
            .ok (some (set ⟨contentKey, encodingKey⟩))) := rfl
      refine ⟨fun h => absurd rfl (hmalformed.mp h).2, fun _ h => ?_, fun _ h => ?_⟩
      · rw [hkeys]
        rcases Classical.em (2 ∣ v.length) with heven | hodd
        · have hw : ¬ 2 ∣ w.length := by
            obtain hone | ⟨value, hvalue, hodd⟩ := hoverruns.mp h
            · exact absurd hone (by simp)
            · rcases List.mem_cons.mp hvalue with rfl | hvalue
              · exact absurd heven hodd
              · rwa [List.mem_singleton.mp hvalue] at hodd
          rw [unhex_of_even heven, Exec.ok_bind, unhex_of_odd hw, Exec.error_bind]
        · rw [unhex_of_odd hodd, Exec.error_bind]
      · have heven : ∀ value ∈ [v, w], 2 ∣ value.length := fun value hvalue =>
          Classical.not_not.mp fun hodd => h (hoverruns.mpr (Or.inr ⟨value, hvalue, hodd⟩))
        rw [hkeys, unhex_of_even (heven v (by simp)), Exec.ok_bind,
          unhex_of_even (heven w (by simp)), Exec.ok_bind, hassigned]
  | u :: v :: w :: values =>
      refine .of_malformed (hmalformed.mpr ⟨by simp, by simp⟩) ?_
      rw [keysHandler, if_pos ⟨by simp, by simp⟩]

/-- The handler of a pair of sizes.  With one value the second size stays. -/
theorem turn_sizes {name : Bytes} (size : UInt64 × UInt64) (set : UInt64 × UInt64 → BuildConfig)
    (hname : name = ascii "install-size" ∨ name = ascii "encoding-size")
    (hone : ∀ v, assigned config [(name, [v])] = set (sized v, size.2))
    (htwo : ∀ v w, assigned config [(name, [v, w])] = set (sized v, sized w)) :
    Turn config name values (sizesHandler size set (name :: values)) := by
  have hmalformed := malformed_sizes values hname
  have hoverruns := overruns_sizes values hname
  match values with
  | [] => exact .of_malformed (hmalformed.mpr (Or.inl ⟨by decide, by decide⟩)) rfl
  | [v] =>
      cases hv : readSize v with
      | none =>
          refine .of_malformed (hmalformed.mpr (Or.inr ⟨v, by simp, hv⟩)) ?_
          simp [sizesHandler, token, hv]
      | some first =>
          have hsized : sized v = first := by rw [sized, hv]; rfl
          refine ⟨fun h => ?_, fun _ h => absurd h hoverruns, fun _ _ => ?_⟩
          · simp [hmalformed, hv] at h
          · rw [hone, hsized]
            simp [sizesHandler, token, hv]
  | [v, w] =>
      cases hv : readSize v with
      | none =>
          refine .of_malformed (hmalformed.mpr (Or.inr ⟨v, by simp, hv⟩)) ?_
          simp [sizesHandler, token, hv]
      | some first =>
          cases hw : readSize w with
          | none =>
              refine .of_malformed (hmalformed.mpr (Or.inr ⟨w, by simp, hw⟩)) ?_
              simp [sizesHandler, token, hv, hw]
          | some second =>
              have hfirst : sized v = first := by rw [sized, hv]; rfl
              have hsecond : sized w = second := by rw [sized, hw]; rfl
              refine ⟨fun h => ?_, fun _ h => absurd h hoverruns, fun _ _ => ?_⟩
              · simp [hmalformed, hv, hw] at h
              · rw [htwo, hfirst, hsecond]
                simp [sizesHandler, token, hv, hw]
  | u :: v :: w :: values =>
      refine .of_malformed (hmalformed.mpr (Or.inl ⟨by simp, by simp⟩)) ?_
      rw [sizesHandler, if_pos ⟨by simp, by simp⟩]

end Handlers

/-- A key without a handler leaves the configuration as it is. -/
theorem turn_unknown {config : BuildConfig} {key : Bytes} (values : List Bytes)
    (hkey : ∀ handler ∈ handlers, handler.1 ≠ key) :
    Turn config key values (handle config (key :: values)) := by
  have hfind : handlers.find? (fun handler => handler.1 = key) = none := by
    rw [List.find?_eq_none]
    exact fun handler hmem => fun h => hkey handler hmem (of_decide_eq_true h)
  have hhandle : handle config (key :: values) = .ok (some config) := by
    rw [handle, token, List.getElem?_cons_zero, Exec.ok_bind, hfind]
  simp only [handlers, List.forall_mem_cons, ne_eq] at hkey
  obtain ⟨hroot, hinstall, hinstallSize, hencoding, hencodingSize, hbuildName, -⟩ := hkey
  refine ⟨fun h => ?_, fun _ h => ?_, fun _ _ => ?_⟩
  · rcases h with ⟨hone, -⟩ | ⟨hpair, -⟩ | ⟨hsize, -⟩
    · rcases hone with rfl | rfl
      · exact absurd rfl hroot
      · exact absurd rfl hbuildName
    · rcases hpair with rfl | rfl | rfl | rfl
      · exact absurd rfl hinstall
      · exact absurd rfl hinstallSize
      · exact absurd rfl hencoding
      · exact absurd rfl hencodingSize
    · rcases hsize with rfl | rfl
      · exact absurd rfl hinstallSize
      · exact absurd rfl hencodingSize
  · rcases h with ⟨rfl, -⟩ | ⟨rfl | rfl, -⟩
    · exact absurd rfl hroot
    · exact absurd rfl hinstall
    · exact absurd rfl hencoding
  · rw [hhandle]
    simp only [assigned, assignedKey, assignedRef, assignedSize, lastValue_of_ne (Ne.symm hroot),
      lastValue_of_ne (Ne.symm hinstall), lastValue_of_ne (Ne.symm hinstallSize),
      lastValue_of_ne (Ne.symm hencoding), lastValue_of_ne (Ne.symm hencodingSize),
      lastValue_of_ne (Ne.symm hbuildName), Option.map_none, Option.getD_none]

/-- One turn, whatever the key. -/
theorem handle_turn (config : BuildConfig) (key : Bytes) (values : List Bytes) :
    Turn config key values (handle config (key :: values)) := by
  by_cases hkey : ∀ handler ∈ handlers, handler.1 ≠ key
  · exact turn_unknown values hkey
  · have hmem : key ∈ handlers.map Prod.fst := by
      simp only [not_forall, Classical.not_not] at hkey
      obtain ⟨handler, hmem, rfl⟩ := hkey
      exact List.mem_map_of_mem hmem
    simp only [handlers, List.map_cons, List.map_nil, List.mem_cons, List.not_mem_nil,
      or_false] at hmem
    rcases hmem with rfl | rfl | rfl | rfl | rfl | rfl
    · exact turn_root
    · refine turn_keys (fun key => { config with install := { config.install with key } })
        (Or.inl rfl) fun v w => ?_
      simp +decide [assigned, assignedKey, assignedRef, assignedSize, lastValue_self,
        lastValue_of_ne]
    · refine turn_sizes config.install.size
        (fun size => { config with install := { config.install with size } }) (Or.inl rfl)
        (fun v => ?_) fun v w => ?_
      · simp +decide [assigned, assignedKey, assignedRef, assignedSize, lastValue_self,
          lastValue_of_ne]
      · simp +decide [assigned, assignedKey, assignedRef, assignedSize, lastValue_self,
          lastValue_of_ne]
    · refine turn_keys (fun key => { config with encoding := { config.encoding with key } })
        (Or.inr rfl) fun v w => ?_
      simp +decide [assigned, assignedKey, assignedRef, assignedSize, lastValue_self,
        lastValue_of_ne]
    · refine turn_sizes config.encoding.size
        (fun size => { config with encoding := { config.encoding with size } }) (Or.inr rfl)
        (fun v => ?_) fun v w => ?_
      · simp +decide [assigned, assignedKey, assignedRef, assignedSize, lastValue_self,
          lastValue_of_ne]
      · simp +decide [assigned, assignedKey, assignedRef, assignedSize, lastValue_self,
          lastValue_of_ne]
    · exact turn_buildName

end BuildConfig

/-! ## Lines -/

namespace ConfigLine

/-- The line ends the parse. -/
def Malformed : ConfigLine → Prop
  | assignment _ key values _ => BuildConfig.Malformed key (values.map Prod.snd)
  | _ => False

/-- The line has nothing in it, or no token, or is not read inside its tokens. -/
def Overruns : ConfigLine → Prop
  | separators _ => True
  | comment _ => False
  | assignment _ key values _ => BuildConfig.Overruns key (values.map Prod.snd)

/-- No line overruns in front of the first malformed one.  What is behind the
last newline is no line when it is empty. -/
def InBounds : List ConfigLine → Prop
  | [] => True
  | line :: lines => line.text = [] ∧ lines = [] ∨ line.Malformed ∨
      ¬ line.Overruns ∧ InBounds lines

instance : DecidablePred Malformed
  | separators _ => inferInstanceAs (Decidable False)
  | comment _ => inferInstanceAs (Decidable False)
  | assignment _ key values _ =>
      inferInstanceAs (Decidable (BuildConfig.Malformed key (values.map Prod.snd)))

instance : DecidablePred Overruns
  | separators _ => inferInstanceAs (Decidable True)
  | comment _ => inferInstanceAs (Decidable False)
  | assignment _ key values _ =>
      inferInstanceAs (Decidable (BuildConfig.Overruns key (values.map Prod.snd)))

instance InBounds.decidable : DecidablePred InBounds
  | [] => inferInstanceAs (Decidable True)
  | line :: lines =>
      have := decidable lines
      inferInstanceAs (Decidable (line.text = [] ∧ lines = [] ∨ line.Malformed ∨
        ¬ line.Overruns ∧ InBounds lines))

end ConfigLine

namespace BuildConfig

open ConfigLine

/-- The result that the lines call for, where `config` is what the lines in front
of them have assigned. -/
def Accords (config : BuildConfig) (lines : List ConfigLine) (result : Option BuildConfig) : Prop :=
  (result = none ↔ ∃ line ∈ lines, line.Malformed) ∧
    ∀ config', result = some config' → config' = assigned config (entries lines)

theorem Accords.nil (config : BuildConfig) : Accords config [] (some config) := by
  refine ⟨iff_of_false (fun h => nomatch h) fun h => ?_, fun config' h => (Option.some.inj h).symm⟩
  obtain ⟨line, hmem, -⟩ := h
  cases hmem

theorem Accords.malformed {config : BuildConfig} {line : ConfigLine} {lines : List ConfigLine}
    (h : line.Malformed) : Accords config (line :: lines) none :=
  ⟨iff_of_true rfl ⟨line, List.mem_cons_self, h⟩, fun _ h => nomatch h⟩

/-- A line that has no text assigns nothing. -/
theorem Accords.blank (config : BuildConfig) {line : ConfigLine} (hline : line.WellFormed)
    (h : line.text = []) : Accords config [line] (some config) := by
  cases line with
  | separators run =>
      refine ⟨iff_of_false (fun h => nomatch h) fun h => ?_,
        fun config' h => (Option.some.inj h).symm⟩
      obtain ⟨line, hmem, hmalformed⟩ := h
      cases List.mem_singleton.mp hmem
      exact hmalformed
  | comment text => cases h
  | assignment lead key values trail =>
      obtain ⟨c, text, htext, -⟩ := exists_head hline
      cases htext.symm.trans h

theorem entries_cons (line : ConfigLine) (lines : List ConfigLine) (config : BuildConfig) :
    assigned config (entries (line :: lines)) =
      assigned (assigned config (entries [line])) (entries lines) := by
  rw [entries, entries, entries, List.filterMap_cons, List.filterMap_cons, List.filterMap_nil]
  cases line.entry? with
  | none => rfl
  | some entry => exact assigned_cons entry _ config

theorem Accords.cons {config : BuildConfig} {line : ConfigLine} {lines : List ConfigLine}
    {result : Option BuildConfig} (hline : ¬ line.Malformed)
    (h : Accords (assigned config (entries [line])) lines result) :
    Accords config (line :: lines) result := by
  obtain ⟨hnone, hsome⟩ := h
  refine ⟨?_, fun config' hresult => ?_⟩
  · rw [hnone, List.exists_mem_cons_iff]
    exact ⟨Or.inr, fun h => h.resolve_left hline⟩
  · rw [entries_cons]
    exact hsome config' hresult

/-- A line that assigns is handled, and decides whether the loop goes on. -/
theorem parseLines_assignment {lead key trail : Bytes} {values : List (Bytes × Bytes)}
    (config : BuildConfig) (rest : List Bytes)
    (hline : (assignment lead key values trail).WellFormed) :
    parseLines config ((assignment lead key values trail).text :: rest) = (do
      match ← handle config (key :: values.map Prod.snd) with
      | none => .ok none
      | some config => parseLines config rest) := by
  obtain ⟨c, text, htext, hc⟩ := exists_head hline
  have htokens := tokenize_assignment hline
  rw [htext] at htokens ⊢
  rw [parseLines, if_neg hc]
  exact htokens ▸ rfl

section Lines

variable {line : ConfigLine} (hline : line.WellFormed) (config : BuildConfig) (rest : List Bytes)

include hline

theorem parseLines_malformed (h : line.Malformed) :
    parseLines config (line.text :: rest) = .ok none := by
  cases line with
  | separators run => exact absurd h id
  | comment text => exact absurd h id
  | assignment lead key values trail =>
      rw [parseLines_assignment config rest hline, (handle_turn _ _ _).malformed h]
      rfl

theorem parseLines_overruns (hnot : ¬ line.Malformed) (h : line.Overruns) :
    parseLines config (line.text :: rest) = .error .outOfBounds := by
  cases line with
  | separators run =>
      cases run with
      | nil => rfl
      | cons c run =>
          rw [text, parseLines, if_neg (IsGap.head_ne_hash hline), tokenize_separators hline]
          rfl
  | comment text => exact absurd h id
  | assignment lead key values trail =>
      rw [parseLines_assignment config rest hline, (handle_turn _ _ _).overruns hnot h]
      rfl

theorem parseLines_assigns (hnot : ¬ line.Malformed) (h : ¬ line.Overruns) :
    parseLines config (line.text :: rest) =
      parseLines (assigned config (entries [line])) rest := by
  cases line with
  | separators run => exact absurd trivial h
  | comment text =>
      rw [ConfigLine.text, parseLines, if_pos rfl]
      rfl
  | assignment lead key values trail =>
      rw [parseLines_assignment config rest hline, (handle_turn _ _ _).assigns hnot h]
      rfl

end Lines

/-- A whole run of the loop over the lines. -/
theorem parseLines_run {lines : List ConfigLine} (hlines : ∀ line ∈ lines, line.WellFormed) :
    ∀ config, (InBounds lines → ∃ result,
        parseLines config (joinedTokens false (lines.map ConfigLine.text)) = .ok result ∧
          Accords config lines result) ∧
      (¬ InBounds lines →
        parseLines config (joinedTokens false (lines.map ConfigLine.text)) =
          .error .outOfBounds) := by
  induction lines with
  | nil =>
      exact fun config => ⟨fun _ => ⟨some config, rfl, .nil config⟩, fun h => absurd trivial h⟩
  | cons line lines ih =>
      intro config
      obtain ⟨hline, hlines⟩ := List.forall_mem_cons.mp hlines
      by_cases hend : line.text = [] ∧ lines = []
      · obtain ⟨htext, rfl⟩ := hend
        have hnone : parseLines config (joinedTokens false [line.text]) = .ok (some config) := by
          rw [htext]
          rfl
        exact ⟨fun _ => ⟨_, hnone, .blank config hline htext⟩,
          fun h => absurd (Or.inl ⟨htext, rfl⟩) h⟩
      · have hmap : ¬ (line.text = [] ∧ lines.map ConfigLine.text = []) := by
          rwa [List.map_eq_nil_iff]
        rw [List.map_cons, joinedTokens_false_cons hmap, InBounds]
        by_cases hmalformed : line.Malformed
        · rw [parseLines_malformed hline config _ hmalformed]
          exact ⟨fun _ => ⟨none, rfl, .malformed hmalformed⟩,
            fun h => absurd (Or.inr (Or.inl hmalformed)) h⟩
        · by_cases hoverruns : line.Overruns
          · rw [parseLines_overruns hline config _ hmalformed hoverruns]
            refine ⟨fun h => ?_, fun _ => rfl⟩
            rcases h with h | h | h
            · exact absurd h hend
            · exact absurd h hmalformed
            · exact absurd hoverruns h.1
          · rw [parseLines_assigns hline config _ hmalformed hoverruns]
            obtain ⟨hin, hout⟩ := ih hlines (assigned config (entries [line]))
            constructor
            · intro h
              have hrest : InBounds lines :=
                ((h.resolve_left hend).resolve_left hmalformed).2
              obtain ⟨result, hr, haccords⟩ := hin hrest
              exact ⟨result, hr, .cons hmalformed haccords⟩
            · exact fun h => hout fun hrest => h (Or.inr (Or.inr ⟨hoverruns, hrest⟩))

/-- The parser returns what the lines call for: nothing when the text is empty
or a line is malformed, and the values that are assigned last otherwise. -/
def KeepsToGrammar {σ : Type} [IReadableStream σ] (lines : List ConfigLine) (stream : σ) : Prop :=
  ∃ result, parse stream = .ok result ∧
    (result = none ↔ joined lines = [] ∨ ∃ line ∈ lines, line.Malformed) ∧
    ∀ config, result = some config → config = assigned {} (entries lines)

section Stream

variable {σ : Type} [IReadableStream σ] [LawfulReadable σ] {lines : List ConfigLine}
  (hlines : ∀ line ∈ lines, line.WellFormed) {stream : σ} {c : Nat}
  (h : Rep stream (joined lines) c)

include hlines h

/-- The parser is the loop over the lines, unless there are none. -/
theorem parse_lines : parse stream =
    if (joinedTokens false (lines.map ConfigLine.text)).isEmpty then .ok none
    else parseLines {} (joinedTokens false (lines.map ConfigLine.text)) := by
  rw [parse]
  dsimp only
  rw [dataBytes_whole h, Exec.ok_bind, tokenize_lines hlines false]

/-- The parser returns on lines that are read inside of their tokens. -/
theorem parse_inBounds (hbounds : InBounds lines) : ∃ result, parse stream = .ok result := by
  rw [parse_lines hlines h]
  split
  · exact ⟨none, rfl⟩
  · obtain ⟨result, hr, -⟩ := (parseLines_run hlines {}).1 hbounds
    exact ⟨result, hr⟩

end Stream

/-- A comment and three lines, the last of which goes over the first. -/
def sampleLines : List ConfigLine :=
  [.comment (ascii " Build"), keyLine "root" ["0a"], keyLine "install-size" ["12", "7"],
    keyLine "root" ["0b"], .separators []]

end BuildConfig

end Tactmon
