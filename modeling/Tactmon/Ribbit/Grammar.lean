import Tactmon.Ribbit.Commands
import Tactmon.Detail.Splitting

/-!
# The grammar of a record

A record of Ribbit is a line of columns with bars between them.  A column may
be empty, the number of columns is that of the table, and a column that holds a
number is a number from end to end.  `Command.Holds` says what the columns of a
record are, for whatever counts as a number, and `Command.Describes` is the
grammar.

The parsers hold the tokens of the line against the same columns
(`parseRecord_eq_some`), and they part with the grammar in three ways, the
cases of `Misread`:

* the tokenizer gives no token for an empty column at the end, so a record that
  ends in one is a column short,
* nor does it give one behind a bar too many, so that bar is not noticed,
* `std::from_chars` stops at the first character that is no digit, and what it
  stopped at is not looked at.
-/

namespace Tactmon

namespace Ribbit

open Binary Text Detail Fields

/-- A decimal numeral, and its value. -/
structure IsNumeral (text : Bytes) (value : UInt32) : Prop where
  ne_nil : text ≠ []
  digits : ∀ c ∈ text, isDigit c = true
  value_eq : decimalNat text = value.toNat

/-- The text begins with a space, and what is behind the spaces it begins with. -/
def spaceFront : Bytes → Option Bytes
  | [] => none
  | c :: rest => if c = space then some (rest.dropWhile (· = space)) else none

namespace Command

/-- The column that holds a number. -/
def numberColumn : Command → Option Nat
  | summary => some 1
  | productVersions => some 4
  | productCDNs => none
  | productBGDL => some 4

/-- The columns of a record. -/
def Holds (IsNumber : Bytes → UInt32 → Prop) : (c : Command) → List Bytes → c.Record → Prop
  | summary, columns, record =>
      ∃ sequenceID, (columns = [record.product, sequenceID, record.flags] ∨
        columns = [record.product, sequenceID] ∧ record.flags = []) ∧
        IsNumber sequenceID record.sequenceID
  | productVersions, columns, record =>
      ∃ buildID, columns = [record.region, record.buildConfig, record.cdnConfig, record.keyRing,
        buildID, record.versionsName, record.productConfig] ∧ IsNumber buildID record.buildID
  | productCDNs, columns, record =>
      ∃ hosts servers, columns = [record.name, record.path, hosts, servers, record.configPath] ∧
        Splits spaceFront hosts record.hosts ∧ Splits spaceFront servers record.servers
  | productBGDL, columns, record =>
      ∃ buildID, columns = [record.region, record.buildConfig, record.cdnConfig, record.keyRing,
        buildID, record.versionsName, record.productConfig] ∧ IsNumber buildID record.buildID

/-- The line is the record. -/
def Describes (c : Command) (input : Bytes) (record : c.Record) : Prop :=
  c.Holds IsNumeral (input.splitOn bar) record

/-- What the parsers take for a number. -/
def Reads (text : Bytes) (value : UInt32) : Prop := readUInt32 text = some value

/-- The column that holds a number does, if there is such a column. -/
def HasNumber (IsNumber : Bytes → UInt32 → Prop) (c : Command) (columns : List Bytes) : Prop :=
  ∀ i ∈ c.numberColumn, ∃ text value, columns[i]? = some text ∧ IsNumber text value

/-- The lines that a parser takes for what they are not. -/
inductive Misread (c : Command) (columns : List Bytes) : Prop where
  /-- The last column of a record is empty, and does not count. -/
  | emptyLast : columns.length ∈ c.columnCounts → (trimmed columns).length ∉ c.columnCounts →
      c.HasNumber IsNumeral columns → Misread c columns
  /-- There is a bar behind the last column, and it does not count. -/
  | barBehind : columns.length ∉ c.columnCounts → (trimmed columns).length ∈ c.columnCounts →
      c.HasNumber Reads columns → Misread c columns
  /-- There is something behind the number. -/
  | behindNumber : columns.length ∈ c.columnCounts → (trimmed columns).length ∈ c.columnCounts →
      c.HasNumber Reads columns → ¬ c.HasNumber IsNumeral columns → Misread c columns

end Command

/-! ## Hosts -/

theorem splits_splitFrom (input : Bytes) :
    (∀ elem, space ∉ elem →
        Splits spaceFront (elem ++ input) (splitFrom (· = space) false elem input)) ∧
      Splits spaceFront (input.dropWhile (· = space)) (splitFrom (· = space) true [] input) := by
  have hfree : ∀ {piece : Bytes} (text : Bytes), space ∉ piece →
      ∀ t, t <:+ piece → t ≠ [] → spaceFront (t ++ text) = none := by
    intro piece text hpiece t ht hne
    obtain ⟨c, t, rfl⟩ := List.exists_cons_of_ne_nil hne
    have hc : c ≠ space := fun h => hpiece (h ▸ ht.subset List.mem_cons_self)
    simp [spaceFront, hc]
  induction input with
  | nil =>
      refine ⟨fun elem helem => ?_, .last fun t ht => ?_⟩
      · rw [List.append_nil]
        refine .last fun t ht => ?_
        cases t with
        | nil => rfl
        | cons c t => simpa using hfree [] helem (c :: t) ht (List.cons_ne_nil _ _)
      · rw [List.suffix_nil.mp ht]
        rfl
  | cons c input ih =>
      by_cases hc : c = space
      · refine ⟨fun elem helem => ?_, ?_⟩
        · rw [splitFrom, if_pos (by simpa using hc)]
          exact .cut (hfree _ helem) (by simp [spaceFront, hc]) ih.2
        · simpa [splitFrom, hc] using ih.2
      · refine ⟨fun elem helem => ?_, ?_⟩
        · have hnext := ih.1 (elem ++ [c]) (by simp [helem, Ne.symm hc])
          simpa [splitFrom, hc] using hnext
        · have hnext := ih.1 [c] (by simp [Ne.symm hc])
          simpa [splitFrom, hc] using hnext

/-- `boost::split` gives the pieces between the runs of spaces. -/
theorem splits_spaces_iff {column : Bytes} {pieces : List Bytes} :
    Splits spaceFront column pieces ↔ splitSpaces column = pieces := by
  have hsplit : Splits spaceFront column (splitSpaces column) := by
    simpa [splitSpaces] using (splits_splitFrom column).1 []
  exact ⟨fun h => hsplit.unique h, fun h => h ▸ hsplit⟩

/-! ## The parsers -/

/-- A numeral that fits is read. -/
theorem IsNumeral.reads {text : Bytes} {value : UInt32} (h : IsNumeral text value) :
    Command.Reads text value := by
  have hall : text.takeWhile isDigit = text := List.takeWhile_eq_self_iff.mpr h.digits
  have hlt : decimalNat text < 2 ^ 32 := h.value_eq ▸ value.toNat_lt
  rw [Command.Reads, readUInt32, fromChars, hall, if_neg h.ne_nil, if_pos hlt, h.value_eq]
  simp

theorem columns_eq (input : Bytes) : columns input = trimmed (input.splitOn bar) := by
  rw [columns, ← tokenizeChar_eq, tokenizeChar_splitOn]

namespace Command

variable {c : Command} {columns : List Bytes}

/-- A parser holds the tokens of the line against the columns of the record. -/
theorem parseRecord_eq_some (input : Bytes) (record : c.Record) :
    c.parseRecord input = some record ↔ c.Holds Reads (trimmed (input.splitOn bar)) record := by
  rw [← columns_eq]
  cases c with
  | summary =>
      show Summary.parse input = some record ↔ _
      obtain ⟨product, sequenceID, flags⟩ := record
      rw [Summary.parse, Holds]
      split <;> simp_all [Reads, and_comm, and_left_comm]
  | productVersions =>
      show Versions.parse input = some record ↔ _
      obtain ⟨region, buildConfig, cdnConfig, keyRing, buildID, versionsName, productConfig⟩ :=
        record
      rw [Versions.parse, Holds]
      split <;> simp_all [Reads, and_comm, and_left_comm]
  | productCDNs =>
      show CDN.parse input = some record ↔ _
      obtain ⟨name, path, hosts, servers, configPath⟩ := record
      rw [CDN.parse, Holds]
      split <;> simp_all [splits_spaces_iff, and_comm, and_left_comm, and_assoc]
  | productBGDL =>
      show BGDL.parse input = some record ↔ _
      obtain ⟨region, buildConfig, cdnConfig, keyRing, buildID, versionsName, productConfig⟩ :=
        record
      rw [BGDL.parse, Holds]
      split <;> simp_all [Reads, and_comm, and_left_comm]

section Holds

variable {IsNumber : Bytes → UInt32 → Prop}

/-- Seven columns with a number among them. -/
theorem exists_seven :
    (∃ region buildConfig cdnConfig keyRing text value versionsName productConfig,
      columns = [region, buildConfig, cdnConfig, keyRing, text, versionsName, productConfig] ∧
        IsNumber text value) ↔
      columns.length = 7 ∧ ∃ text value, columns[4]? = some text ∧ IsNumber text value := by
  constructor
  · rintro ⟨_, _, _, _, text, value, _, _, rfl, hnumber⟩
    exact ⟨rfl, text, value, rfl, hnumber⟩
  · rintro ⟨hlen, text, value, htext, hnumber⟩
    match columns, hlen, htext with
    | [region, buildConfig, cdnConfig, keyRing, buildID, versionsName, productConfig], _, rfl =>
        exact ⟨_, _, _, _, _, value, _, _, rfl, hnumber⟩

theorem exists_five (h : columns.length = 5) :
    ∃ name path hosts servers configPath, columns = [name, path, hosts, servers, configPath] := by
  match columns, h with
  | [name, path, hosts, servers, configPath], _ => exact ⟨_, _, _, _, _, rfl⟩

/-- Some record has these columns exactly when there are as many as there must
be, and the number is one. -/
theorem exists_holds :
    (∃ record, c.Holds IsNumber columns record) ↔
      columns.length ∈ c.columnCounts ∧ c.HasNumber IsNumber columns := by
  cases c with
  | summary =>
      constructor
      · rintro ⟨record, sequenceID, rfl | ⟨rfl, -⟩, hnumber⟩ <;>
          exact ⟨by simp [columnCounts], fun i hi => ⟨sequenceID, record.sequenceID,
            by cases hi; rfl, hnumber⟩⟩
      · rintro ⟨hlen, hnumber⟩
        obtain ⟨text, value, htext, hvalue⟩ := hnumber 1 rfl
        simp only [columnCounts, List.mem_cons, List.not_mem_nil, or_false, List.length_eq_two,
          List.length_eq_three] at hlen
        rcases hlen with ⟨product, sequenceID, rfl⟩ | ⟨product, sequenceID, flags, rfl⟩
        · cases htext
          exact ⟨⟨product, value, []⟩, text, .inr ⟨rfl, rfl⟩, hvalue⟩
        · cases htext
          exact ⟨⟨product, value, flags⟩, text, .inl rfl, hvalue⟩
  | productVersions | productBGDL =>
      simp only [columnCounts, List.mem_singleton, HasNumber, numberColumn, Option.mem_some_iff,
        forall_eq', ← exists_seven]
      constructor
      · rintro ⟨record, buildID, hcolumns, hnumber⟩
        exact ⟨_, _, _, _, buildID, record.buildID, _, _, hcolumns, hnumber⟩
      · rintro ⟨region, buildConfig, cdnConfig, keyRing, text, value, name, config, hcolumns, h⟩
        exact ⟨⟨region, buildConfig, cdnConfig, keyRing, value, name, config⟩, text, hcolumns, h⟩
  | productCDNs =>
      constructor
      · rintro ⟨record, hosts, servers, rfl, -⟩
        refine ⟨List.mem_singleton.mpr rfl, fun i hi => ?_⟩
        cases hi
      · rintro ⟨hlen, -⟩
        obtain ⟨name, path, hosts, servers, configPath, rfl⟩ :=
          exists_five (List.mem_singleton.mp hlen)
        exact ⟨⟨name, path, splitSpaces hosts, splitSpaces servers, configPath⟩, hosts, servers,
          rfl, splits_spaces_iff.mpr rfl, splits_spaces_iff.mpr rfl⟩

/-- The number is in a column that the tokenizer keeps. -/
theorem hasNumber_trimmed (h : (trimmed columns).length ∈ c.columnCounts) :
    c.HasNumber IsNumber (trimmed columns) ↔ c.HasNumber IsNumber columns := by
  have hsame : ∀ i ∈ c.numberColumn, (trimmed columns)[i]? = columns[i]? := by
    intro i hi
    have hlt : i < (trimmed columns).length := by
      cases c <;> cases hi <;> simp [columnCounts] at h <;> omega
    have hkept := List.prefix_iff_getElem?.mp (trimmed_begins columns) i hlt
    rw [hkept, List.getElem?_eq_getElem hlt]
  exact forall₂_congr fun i hi => by rw [hsame i hi]

end Holds

/-- A record that the parser takes from a line that is a record is that one. -/
theorem holds_unique {record record' : c.Record} (h : c.Holds Reads (trimmed columns) record)
    (h' : c.Holds IsNumeral columns record') : record = record' := by
  cases c with
  | summary =>
      obtain ⟨product, sequenceID, flags⟩ := record
      obtain ⟨product', sequenceID', flags'⟩ := record'
      obtain ⟨text, hcolumns, hnumber⟩ := h
      obtain ⟨text', hcolumns', hnumber'⟩ := h'
      have hread := hnumber'.reads
      rcases hcolumns' with rfl | ⟨rfl, hflags⟩
      · cases flags' <;> simp_all [Reads]
      · have hne := hnumber'.ne_nil
        simp_all [Reads]
  | productVersions | productBGDL =>
      obtain ⟨region, buildConfig, cdnConfig, keyRing, buildID, name, config⟩ := record
      obtain ⟨region', buildConfig', cdnConfig', keyRing', buildID', name', config'⟩ := record'
      obtain ⟨text, hcolumns, hnumber⟩ := h
      obtain ⟨text', rfl, hnumber'⟩ := h'
      have hread := hnumber'.reads
      rw [(trimmed_begins _).eq_of_length (by rw [hcolumns]; rfl)] at hcolumns
      simp_all [Reads]
  | productCDNs =>
      obtain ⟨name, path, hosts, servers, configPath⟩ := record
      obtain ⟨name', path', hosts', servers', configPath'⟩ := record'
      obtain ⟨text, text₁, hcolumns, hhosts, hservers⟩ := h
      obtain ⟨text', text₁', rfl, hhosts', hservers'⟩ := h'
      rw [splits_spaces_iff] at hhosts hservers hhosts' hservers'
      rw [(trimmed_begins _).eq_of_length (by rw [hcolumns]; rfl)] at hcolumns
      simp_all

/-- A parser accepts exactly the lines that are records, and takes from them the
records that they are, but for the lines that it misreads. -/
theorem parseRecord_describes_iff (c : Command) (input : Bytes) :
    (∀ record, c.parseRecord input = some record ↔ c.Describes input record) ↔
      ¬ c.Misread (input.splitOn bar) := by
  simp only [parseRecord_eq_some, Describes]
  generalize input.splitOn bar = columns
  have haccepts : (∃ record, c.Holds Reads (trimmed columns) record) ↔
      (trimmed columns).length ∈ c.columnCounts ∧ c.HasNumber Reads columns := by
    rw [exists_holds]
    exact and_congr_right hasNumber_trimmed
  have hgrammar : (∃ record, c.Holds IsNumeral columns record) ↔
      columns.length ∈ c.columnCounts ∧ c.HasNumber IsNumeral columns := exists_holds
  constructor
  · intro h hmisread
    have hsame := exists_congr h
    rw [haccepts, hgrammar] at hsame
    cases hmisread with
    | emptyLast hcount hcut hnumeral => exact hcut (hsame.mpr ⟨hcount, hnumeral⟩).1
    | barBehind hcount hcut hnumber => exact hcount (hsame.mp ⟨hcut, hnumber⟩).1
    | behindNumber hcount hcut hnumber hnumeral =>
        exact hnumeral (hsame.mp ⟨hcut, hnumber⟩).2
  · intro hmisread record
    constructor
    · intro h
      obtain ⟨hcut, hnumber⟩ := haccepts.mp ⟨record, h⟩
      have hcount : columns.length ∈ c.columnCounts :=
        Classical.not_not.mp fun hcount => hmisread (.barBehind hcount hcut hnumber)
      have hnumeral : c.HasNumber IsNumeral columns :=
        Classical.not_not.mp fun hnumeral =>
          hmisread (.behindNumber hcount hcut hnumber hnumeral)
      obtain ⟨record', h'⟩ := hgrammar.mpr ⟨hcount, hnumeral⟩
      rwa [holds_unique h h']
    · intro h'
      obtain ⟨hcount, hnumeral⟩ := hgrammar.mp ⟨record, h'⟩
      have hcut : (trimmed columns).length ∈ c.columnCounts :=
        Classical.not_not.mp fun hcut => hmisread (.emptyLast hcount hcut hnumeral)
      have hnumber : c.HasNumber Reads columns := by
        intro i hi
        obtain ⟨text, value, htext, hvalue⟩ := hnumeral i hi
        exact ⟨text, value, htext, hvalue.reads⟩
      obtain ⟨record', h⟩ := haccepts.mpr ⟨hcut, hnumber⟩
      rwa [← holds_unique h h']

/-- A version without a product configuration is rejected, one with a bar behind
it and one with a letter behind its build id are accepted. -/
theorem parseRecord_misread :
    (∃ record, Describes .productVersions (ascii "us|a|b||1|v|") record ∧
      parseRecord .productVersions (ascii "us|a|b||1|v|") = none) ∧
    (∃ record, parseRecord .productVersions (ascii "us|a|b||1|v|p|") = some record ∧
      ¬ Describes .productVersions (ascii "us|a|b||1|v|p|") record) ∧
    ∃ record, parseRecord .productVersions (ascii "us|a|b||1x|v|p") = some record ∧
      ¬ Describes .productVersions (ascii "us|a|b||1x|v|p") record := by
  refine ⟨⟨⟨ascii "us", ascii "a", ascii "b", [], 1, ascii "v", []⟩, ⟨ascii "1", ?_, ?_⟩, ?_⟩,
    ⟨⟨ascii "us", ascii "a", ascii "b", [], 1, ascii "v", ascii "p"⟩, ?_, ?_⟩,
    ⟨⟨ascii "us", ascii "a", ascii "b", [], 1, ascii "v", ascii "p"⟩, ?_, ?_⟩⟩
  · decide
  · exact ⟨by decide, List.all_eq_true.mp (by decide), by decide⟩
  · decide
  · decide
  · intro h
    exact absurd (exists_holds.mp ⟨_, h⟩).1 (by decide)
  · decide
  · intro h
    obtain ⟨text, value, htext, hnumeral⟩ := (exists_holds.mp ⟨_, h⟩).2 4 rfl
    cases htext
    exact absurd (List.all_eq_true.mpr hnumeral.digits) (by decide)

end Command

end Ribbit

end Tactmon
