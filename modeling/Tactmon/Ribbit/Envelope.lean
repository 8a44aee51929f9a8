import Tactmon.Detail.Splitting
import Tactmon.Ribbit.Commands

/-!
# Queries of Ribbit

`CommandExecutor::Execute` of `ribbit/Commands.hpp`, and the `VersionTraits`
that take a response apart.  A query is one line of text.  What the connection
does with it is an `Exchange`.

* `V1`: a response is a MIME message.  It is read as the response of an HTTP
  server, whose `Content-Type` has the boundary between the parts.  Boost.Beast
  reads the header, so it is a parameter: what it makes of a text is the value
  of that field, or an error.
* `V2`: a response is cut at empty lines.

Either way the first part that holds a table is the answer.  `execute_served`
says that the envelope makes no difference.  A query is answered by the table
that its line asks for, which for `BGDL` is the table of `CDNs`.
-/

namespace Tactmon

namespace Ribbit

open Binary Text Detail Fields

/-! ## The request -/

/-- `Region`. -/
inductive Region where
  | eu
  | us
  | kr
  | cn
  | tw
deriving DecidableEq, Repr

/-- The formatter of a region. -/
def Region.text : Region → Bytes
  | eu => ascii "eu"
  | us => ascii "us"
  | kr => ascii "kr"
  | cn => ascii "cn"
  | tw => ascii "tw"

/-- `Version`. -/
inductive Version where
  | v1
  | v2
deriving DecidableEq, Repr

/-- `VersionTraits::Value`. -/
def Version.value : Version → Bytes
  | v1 => ascii "v1"
  | v2 => ascii "v2"

/-- `CommandTraits::Format` with its arguments in it.  A summary has no
product. -/
def Command.format (version product : Bytes) : Command → Bytes
  | .summary => version ++ ascii "/summary"
  | .productVersions => version ++ (ascii "/products/" ++ (product ++ ascii "/versions"))
  | .productCDNs => version ++ (ascii "/products/" ++ (product ++ ascii "/cdns"))
  | .productBGDL => version ++ (ascii "/products/" ++ (product ++ ascii "/cdns"))

/-- The line that is written. -/
def request (c : Command) (v : Version) (product : Bytes) : Bytes :=
  c.format v.value product ++ crlf

/-- The host that is asked, at port 1119. -/
def host (region : Region) : Bytes := region.text ++ ascii ".version.battle.net"

/-! ## The response -/

/-- `CommandTraits::ValueType`. -/
abbrev Command.Value : Command → Type
  | .summary => List Summary
  | .productVersions => VersionsTable
  | .productCDNs => List CDN
  | .productBGDL => List BGDL

/-- `CommandTraits::Parse`. -/
def Command.parseValue : (c : Command) → Bytes → Option c.Value
  | .summary => parseSummary
  | .productVersions => parseVersions
  | .productCDNs => parseCDNs
  | .productBGDL => parseBGDL

/-- `\s`. -/
def isBlank (c : UInt8) : Bool := decide (c = 32 ∨ (9 ≤ c ∧ c ≤ 13))

/-- What is behind the beginning of a text. -/
def behind (text input : Bytes) : Option Bytes := textFront text input

/-- A boundary between two of these quotes: `quote [^"]+ quote`. -/
def quoted (quote value : Bytes) : Option Bytes :=
  let boundary := (value.drop quote.length).take (value.length - 2 * quote.length)
  if boundary ≠ [] ∧ 34 ∉ boundary ∧ value = quote ++ (boundary ++ quote) then some boundary
  else none

/-- The boundary of a content type, by the expression of `ParseCore`:
`multipart/[^;]+;\s*boundary=("|'|)[^"]+` and the same quote again.  The
alternatives of the quote are tried in order. -/
def mimeBoundary (contentType : Bytes) : Option Bytes := do
  let rest ← behind (ascii "multipart/") contentType
  let parameters ← behind [59] (rest.dropWhile (· ≠ 59))
  let value ← behind (ascii "boundary=") (parameters.dropWhile isBlank)
  if rest.takeWhile (· ≠ 59) = [] then none
  else (quoted [34] value).or ((quoted [39] value).or (quoted [] value))

/-- `HTTP/1.1 200 OK\r\n`. -/
def statusLine : Bytes := ascii "HTTP/1.1 200 OK" ++ crlf

/-- `--{}\r\n`. -/
def boundaryDelimiter (boundary : Bytes) : Bytes := ascii "--" ++ (boundary ++ crlf)

/-- `VersionTraits::ParseCore`.  `http` is the value of `Content-Type`, or none
where the parser fails. -/
def parseCore (http : Bytes → Option Bytes) (input : Bytes) : Version → List Bytes
  | .v1 =>
      match (http (statusLine ++ input)).bind mimeBoundary with
      | none => []
      | some boundary => tokenizeText (boundaryDelimiter boundary) true input
  | .v2 => tokenizeText (crlf ++ crlf) false input

/-- `VersionTraits::Parse`: the first part that has a value. -/
def parseResponse (http : Bytes → Option Bytes) (c : Command) (v : Version) (payload : Bytes) :
    Option c.Value :=
  (parseCore http payload v).findSome? c.parseValue

/-! ## The query -/

/-- How a query goes. -/
inductive Exchange where
  /-- The host name could not be resolved, which throws. -/
  | unresolved
  | unreachable
  | unsent
  /-- The connection broke before its end. -/
  | broken
  | answered (response : Bytes)

/-- `CommandExecutor::Execute`.  The network gets a host and a line. -/
def execute (http : Bytes → Option Bytes) (network : Bytes → Bytes → Exchange) (c : Command)
    (v : Version) (region : Region) (product : Bytes) : Except Unit (Option c.Value) :=
  match network (host region) (request c v product) with
  | .unresolved => .error ()
  | .unreachable => .ok none
  | .unsent => .ok none
  | .broken => .ok none
  | .answered response => .ok (parseResponse http c v response)

/-! ## Texts without a table -/

/-- No line has columns or a sequence number in it. -/
def Quiet (text : Bytes) : Prop :=
  ∀ line ∈ lines text, bar ∉ line ∧ ¬ seqnPrefix <+: line

instance (text : Bytes) : Decidable (Quiet text) :=
  inferInstanceAs (Decidable (∀ line ∈ lines text, bar ∉ line ∧ ¬ seqnPrefix <+: line))

/-- A separator whose last character is nowhere else in it. -/
theorem unbordered_concat {front : Bytes} {c : UInt8} (h : c ∉ front) :
    Unbordered (front ++ [c]) := by
  intro t hstarts hsuffix hne
  have hmem : c ∈ t := by
    have hlast : (front ++ [c]).getLast (by simp) = t.getLast hne :=
      (hsuffix.getLast hne).symm
    rw [List.getLast_append_singleton] at hlast
    exact hlast ▸ List.getLast_mem hne
  rcases List.prefix_concat_iff.mp hstarts with hwhole | hfront
  · exact hwhole
  · exact absurd (hfront.subset hmem) h

theorem unbordered_crlf : Unbordered crlf := @unbordered_concat [13] 10 (by decide)

/-- The lines of two texts with a line break between them. -/
theorem lines_append (first second : Bytes) :
    lines (first ++ (crlf ++ second)) = lines first ++ lines second :=
  tokenizeText_append (List.cons_ne_nil _ _) unbordered_crlf first second

/-- A line without columns is no record. -/
theorem Command.parseRecord_quiet (c : Command) {line : Bytes} (h : bar ∉ line) :
    c.parseRecord line = none := by
  have hfree : ∀ b ∈ line, decide (b = bar) = false := fun b hb =>
    decide_eq_false fun he => h (he ▸ hb)
  by_cases hempty : line = []
  · rw [hempty, c.parseRecord_nil]
  · have hcolumns : columns line = [line] := tokenizeAny_last hfree hempty
    cases c with
    | summary => simp [Command.parseRecord, Summary.parse, hcolumns]
    | productVersions => simp [Command.parseRecord, Versions.parse, hcolumns]
    | productCDNs => simp [Command.parseRecord, CDN.parse, hcolumns]
    | productBGDL => simp [Command.parseRecord, BGDL.parse, hcolumns]

namespace Quiet

variable {text : Bytes} (h : Quiet text)

include h

theorem filterMap (c : Command) : (lines text).filterMap c.parseRecord = [] :=
  List.filterMap_eq_nil_iff.mpr fun line hline => c.parseRecord_quiet (h line hline).1

/-- No line changes a table of versions. -/
theorem foldl (versions : VersionsTable) : (lines text).foldl versionsLine versions = versions := by
  have hlines : ∀ line ∈ lines text, bar ∉ line ∧ ¬ seqnPrefix <+: line := h
  generalize lines text = texts at hlines
  induction texts with
  | nil => rfl
  | cons line rest ih =>
      obtain ⟨⟨hbar, hseqn⟩, hrest⟩ := List.forall_mem_cons.mp hlines
      have hnone : Versions.parse line = none :=
        Command.parseRecord_quiet .productVersions hbar
      have hline : versionsLine versions line = versions := by
        rw [versionsLine, hnone]
        exact if_neg hseqn
      rw [List.foldl_cons, hline, ih hrest]

/-- There is no table in such a text. -/
theorem parseValue (c : Command) : c.parseValue text = none := by
  cases c with
  | summary =>
      have hrecords : parseRecords Summary.parse text = [] := h.filterMap .summary
      simp [Command.parseValue, parseSummary, hrecords]
  | productVersions => simp [Command.parseValue, parseVersions, h.foldl]
  | productCDNs =>
      have hrecords : parseRecords CDN.parse text = [] := h.filterMap .productCDNs
      simp [Command.parseValue, parseCDNs, hrecords]
  | productBGDL =>
      have hrecords : parseRecords BGDL.parse text = [] := h.filterMap .productBGDL
      simp [Command.parseValue, parseBGDL, hrecords]

end Quiet

/-- A table between lines without one is read as if it stood alone. -/
theorem Command.parseValue_between (c : Command) {before after : Bytes} (hbefore : Quiet before)
    (hafter : Quiet after) (table : Bytes) :
    c.parseValue (before ++ (crlf ++ (table ++ (crlf ++ after)))) = c.parseValue table := by
  have hlines : lines (before ++ (crlf ++ (table ++ (crlf ++ after)))) =
      lines before ++ (lines table ++ lines after) := by
    rw [lines_append, lines_append]
  have hrecords : ∀ c : Command,
      parseRecords c.parseRecord (before ++ (crlf ++ (table ++ (crlf ++ after)))) =
        parseRecords c.parseRecord table := by
    intro c
    rw [parseRecords, hlines, List.filterMap_append, List.filterMap_append, hbefore.filterMap,
      hafter.filterMap, List.nil_append, List.append_nil, parseRecords]
  cases c with
  | summary =>
      have hsummary := hrecords .summary
      simp only [Command.parseRecord] at hsummary
      simp only [Command.parseValue, parseSummary, hsummary]
  | productVersions =>
      simp only [Command.parseValue, parseVersions, hlines, List.foldl_append, hbefore.foldl,
        hafter.foldl]
  | productCDNs =>
      have hcdns := hrecords .productCDNs
      simp only [Command.parseRecord] at hcdns
      simp only [Command.parseValue, parseCDNs, hcdns]
  | productBGDL =>
      have hbgdl := hrecords .productBGDL
      simp only [Command.parseRecord] at hbgdl
      simp only [Command.parseValue, parseBGDL, hbgdl]

/-! ## Messages -/

theorem quoted_eq_some {quote value boundary : Bytes} :
    quoted quote value = some boundary ↔
      boundary ≠ [] ∧ 34 ∉ boundary ∧ value = quote ++ (boundary ++ quote) := by
  have hcut : ∀ b, ((quote ++ (b ++ quote)).drop quote.length).take
      ((quote ++ (b ++ quote)).length - 2 * quote.length) = b := by
    intro b
    have hlength : (quote ++ (b ++ quote)).length - 2 * quote.length = b.length := by
      rw [List.length_append, List.length_append]
      omega
    rw [hlength, List.drop_left, List.take_left]
  rw [quoted]
  constructor
  · intro h
    split at h
    · next hyes =>
        cases h
        exact hyes
    · cases h
  · rintro ⟨hne, hfree, rfl⟩
    rw [hcut]
    exact if_pos ⟨hne, hfree, rfl⟩

/-- A MIME message with one table among its parts. -/
structure Message where
  subtype : Bytes
  blanks : Bytes
  /-- The quotes around the boundary, if there are any. -/
  quote : Bytes
  boundary : Bytes
  /-- The header of the message, and the parts in front of the table. -/
  front : List Bytes
  /-- The header of the part with the table. -/
  before : Bytes
  table : Bytes
  /-- What follows the table in its part. -/
  after : Bytes
  /-- The other parts. -/
  back : List Bytes
  subtype_ne : subtype ≠ []
  subtype_inside : 59 ∉ subtype
  blanks_blank : ∀ c ∈ blanks, isBlank c = true
  quote_mem : quote ∈ [[34], [39], []]
  boundary_ne : boundary ≠ []
  boundary_inside : 34 ∉ boundary ∧ 10 ∉ boundary
  /-- Without quotes the boundary has none of its own. -/
  boundary_bare : quote = [] → quoted [39] boundary = none
  parts_whole : ∀ part ∈ front ++ (before ++ (crlf ++ (table ++ (crlf ++ after)))) :: back,
    ¬ boundaryDelimiter boundary <:+: part
  quiet : ∀ part ∈ before :: after :: (front ++ back), Quiet part

namespace Message

variable (m : Message)

/-- The part with the table. -/
def part : Bytes := m.before ++ (crlf ++ (m.table ++ (crlf ++ m.after)))

/-- The message. -/
def text : Bytes :=
  (boundaryDelimiter m.boundary).intercalate (m.front ++ m.part :: m.back)

/-- The value of `Content-Type`. -/
def contentType : Bytes :=
  ascii "multipart/" ++ (m.subtype ++ ([59] ++ (m.blanks ++
    (ascii "boundary=" ++ (m.quote ++ (m.boundary ++ m.quote))))))

/-- The boundary is found between its quotes. -/
theorem quoted_boundary :
    ((quoted [34] (m.quote ++ (m.boundary ++ m.quote))).or
      ((quoted [39] (m.quote ++ (m.boundary ++ m.quote))).or
        (quoted [] (m.quote ++ (m.boundary ++ m.quote))))) = some m.boundary := by
  have hfound : quoted m.quote (m.quote ++ (m.boundary ++ m.quote)) = some m.boundary :=
    quoted_eq_some.mpr ⟨m.boundary_ne, m.boundary_inside.1, rfl⟩
  have hquote := m.quote_mem
  simp only [List.mem_cons, List.not_mem_nil, or_false] at hquote
  rcases hquote with hquote | hquote | hquote
  · rw [hquote] at hfound ⊢
    rw [hfound, Option.some_or]
  · have hno : quoted [34] (m.quote ++ (m.boundary ++ m.quote)) = none := by
      refine Option.eq_none_iff_forall_not_mem.mpr fun b hb => ?_
      obtain ⟨-, -, happ⟩ := quoted_eq_some.mp hb
      rw [hquote] at happ
      exact absurd (List.cons.inj happ).1 (by decide)
    rw [hno, Option.none_or]
    rw [hquote] at hfound ⊢
    rw [hfound, Option.some_or]
  · have hno : quoted [34] (m.quote ++ (m.boundary ++ m.quote)) = none := by
      refine Option.eq_none_iff_forall_not_mem.mpr fun b hb => ?_
      obtain ⟨-, -, happ⟩ := quoted_eq_some.mp hb
      rw [hquote, List.nil_append, List.append_nil] at happ
      exact m.boundary_inside.1 (happ ▸ List.mem_cons_self)
    have hbare : quoted [39] (m.quote ++ (m.boundary ++ m.quote)) = none := by
      rw [hquote, List.nil_append, List.append_nil]
      exact m.boundary_bare hquote
    rw [hno, hbare, Option.none_or, Option.none_or]
    rw [hquote] at hfound ⊢
    exact hfound

theorem mimeBoundary_contentType : mimeBoundary m.contentType = some m.boundary := by
  have hsubtype : ∀ c ∈ m.subtype, decide (c ≠ 59) = true := fun c hc =>
    decide_eq_true fun he => m.subtype_inside (he ▸ hc)
  have hmultipart : ∀ rest, behind (ascii "multipart/") (ascii "multipart/" ++ rest) = some rest :=
    fun rest => textFront_eq_some.mpr rfl
  have hsemicolon : ∀ rest, behind [59] ([59] ++ rest) = some rest :=
    fun rest => textFront_eq_some.mpr rfl
  have hboundary : ∀ rest, behind (ascii "boundary=") (ascii "boundary=" ++ rest) = some rest :=
    fun rest => textFront_eq_some.mpr rfl
  have htake : ∀ rest, (m.subtype ++ ([59] ++ rest)).takeWhile (· ≠ 59) = m.subtype := by
    intro rest
    rw [List.takeWhile_append_of_pos hsubtype, List.singleton_append,
      List.takeWhile_cons_of_neg (by decide), List.append_nil]
  have hdrop : ∀ rest, (m.subtype ++ ([59] ++ rest)).dropWhile (· ≠ 59) = [59] ++ rest := by
    intro rest
    rw [List.dropWhile_append_of_pos hsubtype, List.singleton_append,
      List.dropWhile_cons_of_neg (by decide)]
  have hblanks : ∀ rest, (m.blanks ++ (ascii "boundary=" ++ rest)).dropWhile isBlank =
      ascii "boundary=" ++ rest := by
    intro rest
    rw [List.dropWhile_append_of_pos m.blanks_blank]
    rfl
  rw [mimeBoundary, contentType]
  simp only [hmultipart, Option.bind_eq_bind, Option.bind_some, hdrop, hsemicolon, hblanks,
    hboundary, htake]
  rw [if_neg m.subtype_ne]
  exact m.quoted_boundary

/-- The delimiter does not begin inside itself. -/
theorem unbordered_delimiter : Unbordered (boundaryDelimiter m.boundary) := by
  have hsplit : boundaryDelimiter m.boundary = (ascii "--" ++ (m.boundary ++ [13])) ++ [10] := by
    simp [boundaryDelimiter, crlf]
  rw [hsplit]
  refine unbordered_concat fun hmem => ?_
  rcases List.mem_append.mp hmem with hdashes | hrest
  · exact absurd hdashes (by decide)
  · rcases List.mem_append.mp hrest with hboundary | hreturn
    · exact m.boundary_inside.2 hboundary
    · exact absurd hreturn (by decide)

theorem delimiter_ne : boundaryDelimiter m.boundary ≠ [] :=
  List.append_ne_nil_of_right_ne_nil _ (List.append_ne_nil_of_right_ne_nil _ (List.cons_ne_nil _ _))

theorem quiet_front : ∀ part ∈ m.front, Quiet part := fun part hpart =>
  m.quiet part (by simp [hpart])

theorem quiet_back : ∀ part ∈ m.back, Quiet part := fun part hpart =>
  m.quiet part (by simp [hpart])

/-- The part with the table is read as the table. -/
theorem parseValue_part (c : Command) : c.parseValue m.part = c.parseValue m.table :=
  c.parseValue_between (m.quiet _ (by simp)) (m.quiet _ (by simp)) m.table

/-- The message is cut into its parts. -/
theorem tokenize_text :
    tokenizeText (boundaryDelimiter m.boundary) true m.text =
      (m.front ++ m.part :: m.back).filter fun t => !t.isEmpty :=
  tokenizeText_filter m.delimiter_ne
    (splits_intercalate m.unbordered_delimiter (by simp) m.parts_whole)

end Message

/-! ## Answers -/

/-- Parts in front of a table and behind it do not matter. -/
theorem findSome?_table (c : Command) {front back : List Bytes} (part : Bytes)
    (hfront : ∀ piece ∈ front, Quiet piece) (hback : ∀ piece ∈ back, Quiet piece) :
    (front ++ part :: back).findSome? c.parseValue = c.parseValue part := by
  have hnone : front.findSome? c.parseValue = none :=
    List.findSome?_eq_none_iff.mpr fun piece hpiece => (hfront piece hpiece).parseValue c
  have hnone' : back.findSome? c.parseValue = none :=
    List.findSome?_eq_none_iff.mpr fun piece hpiece => (hback piece hpiece).parseValue c
  rw [List.findSome?_append, hnone, Option.none_or, List.findSome?_cons, hnone']
  cases c.parseValue part with
  | none => rfl
  | some value => rfl

/-- A response of each version around a table. -/
inductive Wraps (http : Bytes → Option Bytes) : Version → Bytes → Bytes → Prop where
  | v1 (m : Message) (hhttp : http (statusLine ++ m.text) = some m.contentType) :
      Wraps http .v1 m.table m.text
  | v2 {front back : List Bytes} {table tail : Bytes}
      (hwhole : ∀ part ∈ front ++ table :: back, part ≠ [] ∧ Unbroken (crlf ++ crlf) part)
      (hquiet : ∀ part ∈ front ++ back, Quiet part)
      (htail : tail = [] ∨ tail = crlf ++ crlf) :
      Wraps http .v2 table ((crlf ++ crlf).intercalate (front ++ table :: back) ++ tail)

/-- The envelope makes no difference. -/
theorem parseResponse_wrapped {http : Bytes → Option Bytes} {v : Version} {table response : Bytes}
    (h : Wraps http v table response) (c : Command) :
    parseResponse http c v response = c.parseValue table := by
  cases h with
  | v1 m hhttp =>
      have hcore : parseCore http m.text .v1 =
          tokenizeText (boundaryDelimiter m.boundary) true m.text := by
        rw [parseCore, hhttp, Option.bind_some, m.mimeBoundary_contentType]
      have hpart : (!m.part.isEmpty) = true := by
        simp [Message.part, crlf]
      have hkept : (m.part :: m.back).filter (fun t => !t.isEmpty) =
          m.part :: m.back.filter fun t => !t.isEmpty := List.filter_cons_of_pos hpart
      rw [parseResponse, hcore, m.tokenize_text, List.filter_append, hkept, ← m.parseValue_part]
      exact findSome?_table c m.part
        (fun piece hpiece => m.quiet_front piece (List.mem_of_mem_filter hpiece))
        fun piece hpiece => m.quiet_back piece (List.mem_of_mem_filter hpiece)
  | @v2 front back table tail hwhole hquiet htail =>
      have hcore : parseCore http
          ((crlf ++ crlf).intercalate (front ++ table :: back) ++ tail) .v2 =
            front ++ table :: back :=
        tokenizeText_intercalate (List.cons_ne_nil _ _) hwhole (by simp) htail
      rw [parseResponse, hcore]
      exact findSome?_table c table
        (fun piece hpiece => hquiet piece (List.mem_append_left _ hpiece))
        fun piece hpiece => hquiet piece (List.mem_append_right _ hpiece)

/-- The command whose table a line asks for. -/
def Command.asked : Command → Command
  | .summary => .summary
  | .productVersions => .productVersions
  | .productCDNs => .productCDNs
  | .productBGDL => .productCDNs

/-- A service that answers every line with the table that it asks for. -/
def Serves (http : Bytes → Option Bytes) (network : Bytes → Bytes → Exchange)
    (tables : Region → Command → Bytes → Bytes) : Prop :=
  ∀ (region : Region) (c : Command) (v : Version) (product : Bytes), ∃ response,
    network (host region) (request c v product) = .answered response ∧
      Wraps http v (tables region c.asked product) response

/-- A query returns what is in the table that its line asks for. -/
theorem execute_served {http : Bytes → Option Bytes} {network : Bytes → Bytes → Exchange}
    {tables : Region → Command → Bytes → Bytes} (h : Serves http network tables) (c : Command)
    (v : Version) (region : Region) (product : Bytes) :
    execute http network c v region product =
      .ok (c.parseValue (tables region c.asked product)) := by
  obtain ⟨response, hanswered, hwraps⟩ := h region c v product
  rw [execute, hanswered]
  exact congrArg Except.ok (parseResponse_wrapped hwraps c)

/-! ## A service -/

/-- The value of the first `Content-Type` line of a header. -/
def contentTypeLine (response : Bytes) : Option Bytes :=
  (lines response).findSome? (behind (ascii "Content-Type: "))

/-- One product, in a message with a signature behind it. -/
def Message.sample : Message where
  subtype := ascii "alternative"
  blanks := ascii " "
  quote := [34]
  boundary := ascii "b0"
  front := [ascii "MIME-Version: 1.0\r\nContent-Type: multipart/alternative; boundary=\"b0\"\r\n\r\n"]
  before := ascii "Content-Type: text/plain\r\nContent-Disposition: summary\r\n"
  table := ascii "Product!STRING:0|Seqn!DEC:4|Flags!STRING:0\r\n## seqn = 7\r\nwow|7|cdn"
  after := []
  back := [ascii "Content-Disposition: signature\r\n\r\nMIIG\r\n--b0--\r\n"]
  subtype_ne := by decide
  subtype_inside := by decide
  blanks_blank := by decide +kernel
  quote_mem := List.mem_cons_self
  boundary_ne := by decide
  boundary_inside := by decide
  boundary_bare := fun h => absurd h (List.cons_ne_nil _ _)
  parts_whole := by decide +kernel
  quiet := by decide

/-- It answers every line of the first version with the message, and every line
of the second with the table. -/
def networkSample (_ : Bytes) (line : Bytes) : Exchange :=
  .answered (if ascii "v1" <+: line then Message.sample.text else Message.sample.table)

/-- A line begins with its version. -/
theorem request_version (c : Command) (v : Version) (product : Bytes) :
    ∃ rest, request c v product = v.value ++ rest := by
  cases c <;> exact ⟨_, List.append_assoc _ _ _⟩

/-- No separator begins in a piece when none is in it or across its end. -/
theorem unbroken_of_not_infix {token piece : Bytes} (h : ¬ token <:+: piece ++ token.dropLast) :
    Unbroken token piece := by
  intro t ht hne hstarts
  have hpos := List.length_pos_iff.mpr hne
  have hshort : token <+: t ++ token.dropLast := by
    refine List.prefix_of_prefix_length_le hstarts
      ((List.prefix_append_right_inj t).mpr (List.dropLast_prefix token)) ?_
    rw [List.length_append, List.length_dropLast]
    omega
  obtain ⟨front, rfl⟩ := ht
  exact h (hshort.isInfix.trans
    (List.append_assoc front t _ ▸ (List.suffix_append front _).isInfix))

theorem serves_sample :
    Serves contentTypeLine networkSample fun _ _ _ => Message.sample.table := by
  intro region c v product
  obtain ⟨rest, hrequest⟩ := request_version c v product
  rw [networkSample, hrequest]
  cases v with
  | v1 =>
      have hyes : ascii "v1" <+: Version.v1.value ++ rest := List.prefix_append _ rest
      exact ⟨_, by rw [if_pos hyes], .v1 Message.sample (by decide +kernel)⟩
  | v2 =>
      have hno : ¬ ascii "v1" <+: Version.v2.value ++ rest := fun hstarts => by
        obtain ⟨line, happ⟩ := hstarts
        exact absurd (List.append_inj happ rfl).1 (by decide)
      have hwhole : ∀ part ∈ [Message.sample.table],
          part ≠ [] ∧ Unbroken (crlf ++ crlf) part := by
        intro part hpart
        rw [List.mem_singleton.mp hpart]
        exact ⟨by decide, unbroken_of_not_infix (by decide +kernel)⟩
      have hwraps : Wraps contentTypeLine .v2 Message.sample.table
          ((crlf ++ crlf).intercalate [Message.sample.table] ++ []) :=
        @Wraps.v2 _ [] [] _ _ hwhole (fun _ hpart => absurd hpart List.not_mem_nil) (.inl rfl)
      rw [List.intercalate_singleton, List.append_nil] at hwraps
      exact ⟨_, by rw [if_neg hno], hwraps⟩

/-- The product is found in the answer of either version. -/
theorem execute_served_sample :
    execute contentTypeLine networkSample .summary .v1 .us [] =
        .ok (some [⟨ascii "wow", 7, ascii "cdn"⟩]) ∧
      execute contentTypeLine networkSample .summary .v2 .us [] =
        .ok (some [⟨ascii "wow", 7, ascii "cdn"⟩]) := by
  have htable : Command.summary.parseValue Message.sample.table =
      some [⟨ascii "wow", 7, ascii "cdn"⟩] := by decide
  exact ⟨(execute_served serves_sample .summary .v1 .us []).trans (congrArg Except.ok htable),
    (execute_served serves_sample .summary .v2 .us []).trans (congrArg Except.ok htable)⟩

end Ribbit

end Tactmon
