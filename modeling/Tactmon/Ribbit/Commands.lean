import Tactmon.Ribbit.Records

/-!
# Tables of Ribbit

`CommandTraits::Parse` of `ribbit/Commands.cpp` for the four commands.  A
response is cut into lines, and the lines that the record parser accepts are
the records.  The sequence number of a `Versions` response is the one of its
last line with a sequence number.

The first line of a table names its columns.  The parsers get rid of it in two
ways.  In `Summary` and `Versions` it is no record, since a column that holds a
number has a name there.  In `CDNs` it is a record, and the first record is
erased.  `BGDL` has a column that holds a number and erases the first record
all the same, so it loses the first row of the table.

A `Payload` is a response as it should be, and `parse_payload_iff` says when
its rows are what the parser returns.
-/

namespace Tactmon

namespace Ribbit

open Binary Text Detail

/-- `\r\n`. -/
def crlf : Bytes := [13, 10]

/-! ## The parsers -/

/-- The lines of a response. -/
def lines (input : Bytes) : List Bytes := tokenizeText crlf true input

/-- The loop over the lines, which keeps those that are records. -/
def parseRecords {ρ : Type} (parse : Bytes → Option ρ) (input : Bytes) : List ρ :=
  (lines input).filterMap parse

/-- `CommandTraits<Command::ProductBGDL>::Parse`. -/
def parseBGDL (input : Bytes) : Option (List BGDL) :=
  let bgdl := parseRecords BGDL.parse input
  if bgdl.isEmpty then none else some bgdl.tail

/-- `CommandTraits<Command::ProductCDNs>::Parse`. -/
def parseCDNs (input : Bytes) : Option (List CDN) :=
  let cdns := parseRecords CDN.parse input
  if cdns.isEmpty then none else some cdns.tail

/-- `CommandTraits<Command::Summary>::Parse`. -/
def parseSummary (input : Bytes) : Option (List Summary) :=
  let summary := parseRecords Summary.parse input
  if summary.isEmpty then none else some summary

/-- `types::Versions`. -/
structure VersionsTable where
  records : List Versions
  sequenceID : UInt64
deriving DecidableEq, Repr

/-- `## seqn = `. -/
def seqnPrefix : Bytes := ascii "## seqn = "

/-- One line of a `Versions` response. -/
def versionsLine (versions : VersionsTable) (line : Bytes) : VersionsTable :=
  match Versions.parse line with
  | some value => { versions with records := versions.records ++ [value] }
  | none =>
      if seqnPrefix <+: line then
        let seqnStr := line.drop 10
        { versions with sequenceID := ((fromChars 64 seqnStr).map UInt64.ofNat).getD 0 }
      else versions

/-- `CommandTraits<Command::ProductVersions>::Parse`. -/
def parseVersions (input : Bytes) : Option VersionsTable :=
  let versions := (lines input).foldl versionsLine ⟨[], 0⟩
  if versions.records.isEmpty || versions.sequenceID = 0 then none else some versions

/-- `Command`, without the two that have no parser. -/
inductive Command where
  | summary
  | productVersions
  | productCDNs
  | productBGDL
deriving DecidableEq, Repr

namespace Command

/-- The record of a command. -/
abbrev Record : Command → Type
  | summary => Summary
  | productVersions => Versions
  | productCDNs => CDN
  | productBGDL => BGDL

/-- `Record::Parse`. -/
def parseRecord : (c : Command) → Bytes → Option c.Record
  | summary => Summary.parse
  | productVersions => Versions.parse
  | productCDNs => CDN.parse
  | productBGDL => BGDL.parse

/-- The records that `CommandTraits::Parse` returns. -/
def parse : (c : Command) → Bytes → Option (List c.Record)
  | summary => parseSummary
  | productVersions => fun input => (parseVersions input).map VersionsTable.records
  | productCDNs => parseCDNs
  | productBGDL => parseBGDL

/-- How many columns a table may have. -/
def columnCounts : Command → List Nat
  | summary => [2, 3]
  | productVersions => [7]
  | productCDNs => [5]
  | productBGDL => [7]

end Command

/-! ## Responses -/

/-- A letter. -/
def isLetter (c : UInt8) : Bool :=
  decide (65 ≤ c.toNat ∧ c.toNat ≤ 90) || decide (97 ≤ c.toNat ∧ c.toNat ≤ 122)

/-- The characters that end a column or begin the end of a line. -/
def Inside (text : Bytes) : Prop := bar ∉ text ∧ 13 ∉ text

/-- A column descriptor. -/
structure Column where
  name : Bytes
  type : Bytes
  width : Nat
  /-- The name begins with a letter. -/
  name_letter : name.head?.any isLetter = true
  name_inside : Inside name
  type_inside : Inside type

/-- `Name!TYPE:n`. -/
def Column.text (column : Column) : Bytes :=
  column.name ++ (33 :: (column.type ++ (58 :: decimal column.width)))

/-- The line of a sequence number. -/
def seqnLine (n : Nat) : Bytes := seqnPrefix ++ decimal n

/-- A line that the record parser accepts. -/
structure Row (c : Command) where
  text : Bytes
  record : c.Record
  parse_eq : c.parseRecord text = some record
  oneLine : ¬ crlf <:+: text

/-- A response: a row of column descriptors, then rows, and sequence numbers
anywhere between them. -/
structure Payload (c : Command) where
  /-- The sequence numbers in front of the column descriptors. -/
  leading : List Nat
  header : List Column
  /-- The lines behind them. -/
  body : List (Nat ⊕ Row c)
  /-- The last line ends like the others. -/
  ended : Bool
  header_length : header.length ∈ c.columnCounts
  seqn_pos : ∀ n ∈ leading ++ body.filterMap Sum.getLeft?, 0 < n
  seqn_ne : c = .productVersions → leading ++ body.filterMap Sum.getLeft? ≠ []
  rows_ne : body.filterMap Sum.getRight? ≠ []

namespace Payload

variable {c : Command}

/-- The sequence numbers, in order. -/
def seqns (p : Payload c) : List Nat := p.leading ++ p.body.filterMap Sum.getLeft?

/-- The records, in order. -/
def records (p : Payload c) : List c.Record := (p.body.filterMap Sum.getRight?).map Row.record

/-- The line of column descriptors. -/
def headerLine (p : Payload c) : Bytes := List.intercalate [bar] (p.header.map Column.text)

/-- A line behind the column descriptors. -/
def bodyLine : Nat ⊕ Row c → Bytes
  | .inl n => seqnLine n
  | .inr row => row.text

/-- The lines of the response. -/
def lines (p : Payload c) : List Bytes :=
  p.leading.map seqnLine ++ p.headerLine :: p.body.map bodyLine

/-- The response. -/
def text (p : Payload c) : Bytes :=
  List.intercalate crlf p.lines ++ if p.ended then crlf else []

end Payload

/-! ## Lines -/

/-- A separator does not begin in a line that has none in it. -/
theorem unbroken_crlf {piece : Bytes} (h : ¬ crlf <:+: piece) : Unbroken crlf piece := by
  intro t ht hne hpre
  match t, hne with
  | [a], _ =>
      rw [crlf, List.singleton_append, List.cons_prefix_cons, List.cons_prefix_cons] at hpre
      exact absurd hpre.2.1 (by decide)
  | a :: b :: t, _ =>
      refine h (List.IsInfix.trans ?_ ht.isInfix)
      have hab : crlf <+: [a, b] ++ t ++ crlf := by simpa using hpre
      have hshort : crlf <+: [a, b] :=
        List.prefix_of_prefix_length_le hab (List.append_assoc _ _ _ ▸ List.prefix_append _ _)
          (Nat.le_refl 2)
      exact (hshort.trans (List.prefix_append [a, b] t)).isInfix

theorem not_infix_crlf {text : Bytes} (h : 13 ∉ text) : ¬ crlf <:+: text := fun hin =>
  h (hin.subset List.mem_cons_self)

/-- What is in joined texts is in one of them, or between them. -/
theorem mem_of_mem_intercalate {α : Type} {sep : List α} {a : α} {texts : List (List α)}
    (h : a ∈ sep.intercalate texts) : a ∈ sep ∨ ∃ text ∈ texts, a ∈ text := by
  induction texts with
  | nil => exact absurd h List.not_mem_nil
  | cons text texts ih =>
      cases texts with
      | nil =>
          rw [List.intercalate_singleton] at h
          exact .inr ⟨text, List.mem_cons_self, h⟩
      | cons next texts =>
          rw [List.intercalate_cons_cons, List.mem_append, List.mem_append] at h
          rcases h with (htext | hsep) | hrest
          · exact .inr ⟨text, List.mem_cons_self, htext⟩
          · exact .inl hsep
          · refine (ih hrest).imp_right fun hmem => ?_
            obtain ⟨t, ht, ha⟩ := hmem
            exact ⟨t, List.mem_cons_of_mem _ ht, ha⟩

section Columns

theorem isDigit_of_isLetter {c : UInt8} (h : isLetter c = true) : isDigit c = false := by
  simp only [isLetter, isDigit, Bool.or_eq_true, decide_eq_true_eq, decide_eq_false_iff_not] at *
  omega

variable (column : Column)

theorem Column.not_mem_text {c : UInt8} (hname : c ∉ column.name) (htype : c ∉ column.type)
    (hdigit : isDigit c = false) (hmarks : c ≠ 33 ∧ c ≠ 58) : c ∉ column.text := by
  have hwidth : c ∉ decimal column.width := not_mem_decimal hdigit
  simp [Column.text, hname, htype, hwidth, hmarks]

theorem Column.text_inside : Inside column.text :=
  ⟨column.not_mem_text column.name_inside.1 column.type_inside.1 rfl (by decide),
    column.not_mem_text column.name_inside.2 column.type_inside.2 rfl (by decide)⟩

/-- A descriptor begins with a letter. -/
theorem Column.text_cons : ∃ c rest, column.text = c :: rest ∧ isLetter c = true := by
  have hletter := column.name_letter
  cases hname : column.name with
  | nil =>
      rw [hname] at hletter
      cases hletter
  | cons c rest =>
      rw [hname] at hletter
      exact ⟨_, _, by rw [Column.text, hname, List.cons_append], hletter⟩

theorem Column.text_ne : column.text ≠ [] := by
  obtain ⟨c, rest, htext, -⟩ := column.text_cons
  rw [htext]
  exact List.cons_ne_nil c rest

/-- A descriptor is no number. -/
theorem Column.readUInt32_text : readUInt32 column.text = none := by
  obtain ⟨c, rest, htext, hletter⟩ := column.text_cons
  rw [readUInt32, htext, fromChars_cons_none (isDigit_of_isLetter hletter), Option.map_none]

end Columns

/-- The line of a sequence number has one column. -/
theorem columns_seqnLine (n : Nat) : columns (seqnLine n) = [seqnLine n] := by
  have hbar : bar ∉ seqnLine n := by
    rw [seqnLine, List.mem_append, not_or]
    exact ⟨by decide, not_mem_decimal rfl⟩
  have hfree : ∀ c ∈ seqnLine n, decide (c = bar) = false := fun c hc =>
    decide_eq_false fun he => hbar (he ▸ hc)
  exact tokenizeAny_last hfree (List.append_ne_nil_of_right_ne_nil _ (decimal_ne_nil n))

theorem CDN.parse_isSome {input : Bytes} (h : (columns input).length = 5) :
    (CDN.parse input).isSome = true := by
  rw [CDN.parse]
  match hcolumns : columns input, h with
  | [name, path, hosts, servers, configPath], _ => rfl

section Rejected

variable {input : Bytes} (h : ∀ column ∈ columns input, readUInt32 column = none)

include h

/-- Without a number among its columns a line is no record of a table that has
a column with a number. -/
theorem Summary.parse_eq_none : Summary.parse input = none := by
  rw [Summary.parse]
  split
  · next heq =>
      rw [h _ (by simp [heq]), Option.map_none]
  · next heq =>
      rw [h _ (by simp [heq]), Option.map_none]
  · rfl

theorem Versions.parse_eq_none : Versions.parse input = none := by
  rw [Versions.parse]
  split
  · next heq =>
      rw [h _ (by simp [heq]), Option.map_none]
  · rfl

theorem BGDL.parse_eq_none : BGDL.parse input = none := by
  rw [BGDL.parse]
  split
  · next heq =>
      rw [h _ (by simp [heq]), Option.map_none]
  · rfl

end Rejected

namespace Command

variable (c : Command)

theorem parseRecord_nil : c.parseRecord [] = none := by
  cases c <;> rfl

/-- The line of a sequence number is no record. -/
theorem parseRecord_seqnLine (n : Nat) : c.parseRecord (seqnLine n) = none := by
  have hcolumns := columns_seqnLine n
  cases c with
  | summary =>
      show Summary.parse (seqnLine n) = none
      simp [Summary.parse, hcolumns]
  | productVersions =>
      show Versions.parse (seqnLine n) = none
      simp [Versions.parse, hcolumns]
  | productCDNs =>
      show CDN.parse (seqnLine n) = none
      simp [CDN.parse, hcolumns]
  | productBGDL =>
      show BGDL.parse (seqnLine n) = none
      simp [BGDL.parse, hcolumns]

end Command

namespace Row

variable {c : Command} (row : Row c)

theorem text_ne : row.text ≠ [] := fun hnil => by
  have hparse := row.parse_eq
  rw [hnil, c.parseRecord_nil] at hparse
  cases hparse

end Row

namespace Payload

variable {c : Command} (p : Payload c)

theorem header_ne : p.header ≠ [] := fun hnil => by
  have hlength := p.header_length
  rw [hnil] at hlength
  cases c <;> simp [Command.columnCounts] at hlength

theorem columns_headerLine : columns p.headerLine = p.header.map Column.text := by
  refine tokenize_intercalate (fun text htext => ?_) (by simpa using p.header_ne)
  obtain ⟨column, -, rfl⟩ := List.mem_map.mp htext
  exact ⟨column.text_ne, column.text_inside.1⟩

/-- No column descriptor is a number. -/
theorem readUInt32_columns : ∀ text ∈ columns p.headerLine, readUInt32 text = none := by
  rw [p.columns_headerLine]
  intro text htext
  obtain ⟨column, -, rfl⟩ := List.mem_map.mp htext
  exact column.readUInt32_text

/-- The line of column descriptors is a record of `CDNs` only. -/
theorem parseRecord_headerLine (hc : c ≠ .productCDNs) : c.parseRecord p.headerLine = none := by
  have hcolumns := p.readUInt32_columns
  cases c with
  | summary => exact Summary.parse_eq_none hcolumns
  | productVersions => exact Versions.parse_eq_none hcolumns
  | productCDNs => exact absurd rfl hc
  | productBGDL => exact BGDL.parse_eq_none hcolumns

theorem parse_headerLine (p : Payload .productCDNs) :
    ∃ record, CDN.parse p.headerLine = some record := by
  refine Option.isSome_iff_exists.mp (CDN.parse_isSome ?_)
  rw [p.columns_headerLine, List.length_map]
  exact List.mem_singleton.mp p.header_length

/-- Each line is a line. -/
theorem lines_unbroken : ∀ line ∈ p.lines, line ≠ [] ∧ Unbroken crlf line := by
  have hseqn : ∀ n, seqnLine n ≠ [] ∧ Unbroken crlf (seqnLine n) := by
    intro n
    refine ⟨List.append_ne_nil_of_right_ne_nil _ (decimal_ne_nil n),
      unbroken_crlf (not_infix_crlf ?_)⟩
    rw [seqnLine, List.mem_append, not_or]
    exact ⟨by decide, not_mem_decimal rfl⟩
  have hheader : p.headerLine ≠ [] ∧ Unbroken crlf p.headerLine := by
    refine ⟨fun hnil => p.header_ne ?_, unbroken_crlf (not_infix_crlf fun hmem => ?_)⟩
    · have hcolumns := p.columns_headerLine
      rw [hnil] at hcolumns
      exact List.map_eq_nil_iff.mp hcolumns.symm
    · rcases mem_of_mem_intercalate hmem with hbar | htext
      · exact absurd (List.mem_singleton.mp hbar) (by decide)
      · obtain ⟨text, htext, hmem⟩ := htext
        obtain ⟨column, -, rfl⟩ := List.mem_map.mp htext
        exact column.text_inside.2 hmem
  intro line hline
  rcases List.mem_append.mp hline with hleading | hrest
  · obtain ⟨n, -, rfl⟩ := List.mem_map.mp hleading
    exact hseqn n
  · rcases List.mem_cons.mp hrest with rfl | hbody
    · exact hheader
    · obtain ⟨item, -, rfl⟩ := List.mem_map.mp hbody
      cases item with
      | inl n => exact hseqn n
      | inr row => exact ⟨row.text_ne, unbroken_crlf row.oneLine⟩

/-- The response is cut into its lines. -/
theorem lines_text : Ribbit.lines p.text = p.lines := by
  have hne : p.lines ≠ [] := List.append_ne_nil_of_right_ne_nil _ (List.cons_ne_nil _ _)
  refine tokenizeText_intercalate (List.cons_ne_nil _ _) p.lines_unbroken hne ?_
  cases p.ended with
  | false => exact .inl rfl
  | true => exact .inr rfl

/-- The rows behind the column descriptors are the records. -/
theorem filterMap_body (body : List (Nat ⊕ Row c)) :
    (body.map bodyLine).filterMap c.parseRecord =
      (body.filterMap Sum.getRight?).map Row.record := by
  induction body with
  | nil => rfl
  | cons item body ih =>
      cases item with
      | inl n =>
          have hnone : c.parseRecord (bodyLine (c := c) (.inl n)) = none := c.parseRecord_seqnLine n
          rw [List.map_cons, List.filterMap_cons_none hnone, ih]
          rfl
      | inr row =>
          have hsome : c.parseRecord (bodyLine (.inr row)) = some row.record := row.parse_eq
          rw [List.map_cons, List.filterMap_cons_some hsome, ih]
          rfl

/-- The records of the lines are those of the rows, behind that of the column
descriptors. -/
theorem filterMap_lines :
    p.lines.filterMap c.parseRecord = (c.parseRecord p.headerLine).toList ++ p.records := by
  have hleading : (p.leading.map seqnLine).filterMap c.parseRecord = [] := by
    refine List.filterMap_eq_nil_iff.mpr fun line hline => ?_
    obtain ⟨n, -, rfl⟩ := List.mem_map.mp hline
    exact c.parseRecord_seqnLine n
  rw [lines, List.filterMap_append, hleading, List.nil_append, List.filterMap_cons,
    filterMap_body, records]
  cases c.parseRecord p.headerLine with
  | none => rfl
  | some record => rfl

theorem records_ne : p.records ≠ [] := by
  simpa [records] using p.rows_ne

end Payload

/-! ## Sequence numbers -/

/-- The sequence number that a line with this number sets. -/
def seqnValue (n : Nat) : UInt64 := if n < 2 ^ 64 then .ofNat n else 0

/-- A sequence number that fits is kept, and one that does not fit counts as
none. -/
theorem seqnValue_eq_zero_iff {n : Nat} (hpos : 0 < n) : seqnValue n = 0 ↔ ¬ n < 2 ^ 64 := by
  rw [seqnValue]
  split
  · next hlt =>
      refine iff_of_false (fun hzero => ?_) (not_not.mpr hlt)
      have hnat := congrArg UInt64.toNat hzero
      rw [UInt64.toNat_ofNat_of_lt' hlt] at hnat
      exact absurd hnat (Nat.pos_iff_ne_zero.mp hpos)
  · next hge => exact iff_of_true rfl hge

/-- The number of the last line with a sequence number. -/
def lastSeqn (sequenceID : UInt64) (seqns : List Nat) : UInt64 :=
  seqns.foldl (fun _ n => seqnValue n) sequenceID

theorem lastSeqn_eq (sequenceID : UInt64) {seqns : List Nat} {n : Nat}
    (h : seqns.getLast? = some n) : lastSeqn sequenceID seqns = seqnValue n := by
  obtain ⟨front, rfl⟩ := List.getLast?_eq_some_iff.mp h
  rw [lastSeqn, List.foldl_append, List.foldl_cons, List.foldl_nil]

/-! What a line does to a `Versions` response. -/

theorem versionsLine_seqnLine (versions : VersionsTable) (n : Nat) :
    versionsLine versions (seqnLine n) = { versions with sequenceID := seqnValue n } := by
  have hnone : Versions.parse (seqnLine n) = none :=
    Command.parseRecord_seqnLine .productVersions n
  have hprefix : seqnPrefix <+: seqnLine n := List.prefix_append _ _
  have hdrop : (seqnLine n).drop 10 = decimal n := List.drop_left' rfl
  rw [versionsLine, hnone]
  dsimp only
  rw [if_pos hprefix, hdrop, fromChars_decimal_eq, seqnValue]
  split
  · rfl
  · rfl

theorem versionsLine_row (versions : VersionsTable) (row : Row .productVersions) :
    versionsLine versions row.text =
      { versions with records := versions.records ++ [row.record] } := by
  have hsome : Versions.parse row.text = some row.record := row.parse_eq
  rw [versionsLine, hsome]

namespace Payload

/-- The line of column descriptors sets no sequence number. -/
theorem versionsLine_headerLine (versions : VersionsTable) (p : Payload .productVersions) :
    versionsLine versions p.headerLine = versions := by
  have hnone : Versions.parse p.headerLine = none := Versions.parse_eq_none p.readUInt32_columns
  have hprefix : ¬ seqnPrefix <+: p.headerLine := fun hpre => by
    cases hheader : p.header with
    | nil => exact p.header_ne hheader
    | cons column columns =>
        obtain ⟨c, rest, htext, hletter⟩ := column.text_cons
        have hline : ∃ more, p.headerLine = c :: more := by
          rw [headerLine, hheader, List.map_cons, htext]
          cases columns.map Column.text with
          | nil => exact ⟨rest, List.intercalate_singleton⟩
          | cons next texts =>
              exact ⟨_, by rw [List.intercalate_cons_cons, List.cons_append, List.cons_append]⟩
        obtain ⟨more, hmore⟩ := hline
        rw [hmore] at hpre
        have hhash : 35 = c := (List.cons_prefix_cons.mp hpre).1
        rw [← hhash] at hletter
        exact absurd hletter (by decide)
  rw [versionsLine, hnone]
  exact if_neg hprefix

theorem foldl_leading (seqns : List Nat) : ∀ versions : VersionsTable,
    (seqns.map seqnLine).foldl versionsLine versions =
      { versions with sequenceID := lastSeqn versions.sequenceID seqns } := by
  induction seqns with
  | nil => exact fun _ => rfl
  | cons n seqns ih =>
      intro versions
      rw [List.map_cons, List.foldl_cons, versionsLine_seqnLine, ih]
      rfl

theorem foldl_body (body : List (Nat ⊕ Row .productVersions)) : ∀ versions : VersionsTable,
    (body.map bodyLine).foldl versionsLine versions =
      ⟨versions.records ++ (body.filterMap Sum.getRight?).map Row.record,
        lastSeqn versions.sequenceID (body.filterMap Sum.getLeft?)⟩ := by
  induction body with
  | nil =>
      intro versions
      exact congrArg (VersionsTable.mk · _) (List.append_nil _).symm
  | cons item body ih =>
      intro versions
      rw [List.map_cons, List.foldl_cons]
      cases item with
      | inl n =>
          rw [bodyLine, versionsLine_seqnLine, ih]
          rfl
      | inr row =>
          rw [bodyLine, versionsLine_row, ih, List.append_assoc]
          rfl

/-- The loop over the lines of a response leaves its records and its last
sequence number. -/
theorem foldl_lines (p : Payload .productVersions) :
    p.lines.foldl versionsLine ⟨[], 0⟩ = ⟨p.records, lastSeqn 0 p.seqns⟩ := by
  rw [lines, List.foldl_append, foldl_leading, List.foldl_cons, versionsLine_headerLine, foldl_body,
    seqns, lastSeqn, lastSeqn, lastSeqn, List.foldl_append]
  rfl

/-! ## The tables -/

/-- What the loop of a parser keeps of a response. -/
theorem parseRecords_text {c : Command} (p : Payload c) :
    parseRecords c.parseRecord p.text = (c.parseRecord p.headerLine).toList ++ p.records := by
  rw [parseRecords, p.lines_text, p.filterMap_lines]

theorem parseSummary_text (p : Payload .summary) : parseSummary p.text = some p.records := by
  have hrecords : parseRecords Summary.parse p.text = p.records := by
    have hlines := p.parseRecords_text
    rwa [p.parseRecord_headerLine (by decide)] at hlines
  rw [parseSummary, hrecords]
  exact if_neg (by simpa using p.records_ne)

theorem parseCDNs_text (p : Payload .productCDNs) : parseCDNs p.text = some p.records := by
  obtain ⟨record, hrecord⟩ := p.parse_headerLine
  have hrecords : parseRecords CDN.parse p.text = record :: p.records := by
    have hsome : Command.parseRecord .productCDNs p.headerLine = some record := hrecord
    have hlines := p.parseRecords_text
    rwa [hsome] at hlines
  rw [parseCDNs, hrecords]
  rfl

/-- The first row of a `BGDL` table is lost. -/
theorem parseBGDL_text (p : Payload .productBGDL) : parseBGDL p.text = some p.records.tail := by
  have hrecords : parseRecords BGDL.parse p.text = p.records := by
    have hlines := p.parseRecords_text
    rwa [p.parseRecord_headerLine (by decide)] at hlines
  rw [parseBGDL, hrecords]
  exact if_neg (by simpa using p.records_ne)

theorem parseVersions_text (p : Payload .productVersions) :
    parseVersions p.text =
      if lastSeqn 0 p.seqns = 0 then none else some ⟨p.records, lastSeqn 0 p.seqns⟩ := by
  have hempty : p.records.isEmpty = false := List.isEmpty_eq_false_iff.mpr p.records_ne
  rw [parseVersions, p.lines_text, p.foldl_lines]
  simp [hempty]

end Payload

/-- A response is parsed row for row exactly when it is not one of `BGDL` and,
for `Versions`, its last sequence number has 64 bits. -/
theorem parse_payload_iff (c : Command) (p : Payload c) :
    c.parse p.text = some p.records ↔
      c ≠ .productBGDL ∧
        (c = .productVersions → ∀ n ∈ p.seqns.getLast?, n < 2 ^ 64) := by
  cases c with
  | summary => exact iff_of_true p.parseSummary_text ⟨by decide, fun h => by cases h⟩
  | productCDNs => exact iff_of_true p.parseCDNs_text ⟨by decide, fun h => by cases h⟩
  | productBGDL =>
      refine iff_of_false (fun hparse => ?_) fun h => h.1 rfl
      have htail := Option.some.inj (p.parseBGDL_text.symm.trans hparse)
      cases hrecords : p.records with
      | nil => exact p.records_ne hrecords
      | cons record records =>
          rw [hrecords] at htail
          exact absurd (congrArg List.length htail) (by simp)
  | productVersions =>
      obtain ⟨n, hlast⟩ : ∃ n, p.seqns.getLast? = some n :=
        Option.isSome_iff_exists.mp (List.getLast?_isSome.mpr (p.seqn_ne rfl))
      have hpos : 0 < n := p.seqn_pos n (List.mem_of_getLast? hlast)
      have hzero := seqnValue_eq_zero_iff hpos
      rw [← lastSeqn_eq 0 hlast] at hzero
      simp only [Command.parse, p.parseVersions_text, hlast, Option.mem_some_iff, forall_eq',
        ne_eq, reduceCtorEq, not_false_eq_true, true_and, true_implies]
      split
      · next h => exact iff_of_false (fun hnone => by cases hnone) (hzero.mp h)
      · next h => exact iff_of_true rfl (not_not.mp fun hlt => h (hzero.mpr hlt))

/-- The columns of `BGDL`, by their names and types. -/
def bgdlColumns : List (String × String × Nat) :=
  [("Region", "STRING", 0), ("BuildConfig", "HEX", 16), ("CDNConfig", "HEX", 16),
    ("KeyRing", "HEX", 16), ("BuildId", "DEC", 4), ("VersionsName", "String", 0),
    ("ProductConfig", "HEX", 16)]

theorem bgdlColumns_fit : ∀ column ∈ bgdlColumns,
    (ascii column.1).head?.any isLetter = true ∧ Inside (ascii column.1) ∧
      Inside (ascii column.2.1) := by
  unfold Inside
  decide

/-- A table of `BGDL` with one row. -/
def bgdlSample : Payload .productBGDL where
  leading := []
  header := bgdlColumns.attach.map fun column =>
    { name := ascii column.1.1
      type := ascii column.1.2.1
      width := column.1.2.2
      name_letter := (bgdlColumns_fit column.1 column.2).1
      name_inside := (bgdlColumns_fit column.1 column.2).2.1
      type_inside := (bgdlColumns_fit column.1 column.2).2.2 }
  body := [.inl 7, .inr
    { text := ascii "us|b0|c0||5|1.0.5|p0"
      record := ⟨ascii "us", ascii "b0", ascii "c0", [], 5, ascii "1.0.5", ascii "p0"⟩
      parse_eq := by rfl
      oneLine := not_infix_crlf (by decide) }]
  ended := true
  header_length := List.mem_singleton.mpr rfl
  seqn_pos := by simp
  seqn_ne := by simp
  rows_ne := by simp

/-- The only row is lost. -/
theorem parse_payload_wrong :
    Command.parse .productBGDL bgdlSample.text = some [] ∧ bgdlSample.records ≠ [] := by
  exact ⟨bgdlSample.parseBGDL_text, bgdlSample.records_ne⟩

end Ribbit

end Tactmon
