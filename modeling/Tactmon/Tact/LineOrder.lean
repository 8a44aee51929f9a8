import Mathlib.Data.List.Nodup
import Tactmon.Tact.CDNConfig
import Tactmon.Tact.ConfigLine

/-!
# CDN configurations in any order

Whether `CDNConfig.parse` depends on the order of the lines.  A line without a
size for an archive is a step that returns (`handle_eq_step`), and the steps of
two keys commute (`step_comm`), so lines with distinct keys come to the same
configuration in any order.

A size for an archive is different, since the archive has to be there.  Put in
front of all other lines it has no archive to go to, however many names there
are (`parse_order_iff`).
-/

namespace Tactmon

open Binary Cxx Text Detail CursorReadable LawfulReadable ConfigLine

namespace CDNConfig

/-! ## Steps -/

/-- What an entry does that sets no size of an archive. -/
def step (config : CDNConfig) (entry : Bytes × List Bytes) : Option CDNConfig :=
  if entry.1 = ascii "archives" then
    some { config with archives := setNames config.archives entry.2 }
  else if entry.1 = ascii "file-index" then
    entry.2.head?.map fun name =>
      { config with fileIndex := some { config.fileIndex.getD Archive.init with name } }
  else if entry.1 = ascii "file-index-size" then
    (entry.2.head?.bind BuildConfig.readSize).map fun size =>
      { config with fileIndex := some { config.fileIndex.getD Archive.init with size } }
  else some config

/-- The entry sets no size of an archive. -/
def Sizeless (entry : Bytes × List Bytes) : Prop :=
  entry.1 = ascii "archives-index-size" → entry.2 = []

instance : DecidablePred Sizeless := fun entry =>
  inferInstanceAs (Decidable (entry.1 = ascii "archives-index-size" → entry.2 = []))

theorem handle_eq_step (config : CDNConfig) {entry : Bytes × List Bytes} (h : Sizeless entry) :
    handle config (entry.1 :: entry.2) = .ok (step config entry) := by
  obtain ⟨key, values⟩ := entry
  rw [handle, BuildConfig.token, List.getElem?_cons_zero, Exec.ok_bind, step]
  dsimp only
  by_cases harchives : key = ascii "archives"
  · rw [if_pos harchives, if_pos harchives]
    rfl
  rw [if_neg harchives, if_neg harchives]
  by_cases hsizes : key = ascii "archives-index-size"
  · have hvalues : values = [] := h hsizes
    have hname : key ≠ ascii "file-index" := by rw [hsizes]; decide
    have hsize : key ≠ ascii "file-index-size" := by rw [hsizes]; decide
    rw [if_pos hsizes, if_neg hname, if_neg hsize, hvalues, List.drop_one, List.tail_cons,
      setSizes, Exec.ok_bind, Option.map_some]
  rw [if_neg hsizes]
  by_cases hname : key = ascii "file-index"
  · rw [if_pos hname, if_pos hname]
    cases values with
    | nil => rfl
    | cons name values =>
        have hmore : (key :: name :: values).length ≠ 1 := by simp
        rw [if_neg hmore]
        rfl
  rw [if_neg hname, if_neg hname]
  by_cases hsize : key = ascii "file-index-size"
  · rw [if_pos hsize, if_pos hsize]
    cases values with
    | nil => rfl
    | cons size values =>
        have hmore : (key :: size :: values).length ≠ 1 := by simp
        have htoken : BuildConfig.token (key :: size :: values) 1 = .ok size := rfl
        rw [if_neg hmore, htoken, Exec.ok_bind, List.head?_cons, Option.bind_some]
        cases BuildConfig.readSize size with
        | none => rfl
        | some n => rfl
  rw [if_neg hsize, if_neg hsize]

/-- The steps of two keys commute. -/
theorem step_comm (config : CDNConfig) {entry entry' : Bytes × List Bytes}
    (h : entry.1 ≠ entry'.1) :
    (step config entry).bind (step · entry') = (step config entry').bind (step · entry) := by
  obtain ⟨key, values⟩ := entry
  obtain ⟨key', values'⟩ := entry'
  simp only [step]
  generalize values.head?.bind BuildConfig.readSize = size
  generalize values'.head?.bind BuildConfig.readSize = size'
  generalize values.head? = name
  generalize values'.head? = name'
  -- Two keys have two branches, one for the archives or for a part of the file index.
  split_ifs <;> first
    | exact absurd (Eq.trans ‹key = _› (Eq.symm ‹key' = _›)) h
    | cases name <;> cases size <;> cases name' <;> cases size' <;> rfl

/-- The entries in order. -/
def steps (config : CDNConfig) (entries : List (Bytes × List Bytes)) : Option CDNConfig :=
  entries.foldl (fun config entry => config.bind (step · entry)) (some config)

/-- Entries with distinct keys come to the same configuration in any order. -/
theorem steps_perm (config : CDNConfig) {entries entries' : List (Bytes × List Bytes)}
    (hkeys : (entries.map Prod.fst).Nodup) (hperm : entries.Perm entries') :
    steps config entries = steps config entries' := by
  refine hperm.foldl_eq' (fun entry hentry entry' hentry' before => ?_) (some config)
  by_cases hkey : entry.1 = entry'.1
  · rw [List.inj_on_of_nodup_map hkeys hentry hentry' hkey]
  · cases before with
    | none => rfl
    | some before => exact step_comm before hkey

theorem steps_none (entries : List (Bytes × List Bytes)) :
    entries.foldl (fun config entry => Option.bind config (step · entry)) none = none := by
  induction entries with
  | nil => rfl
  | cons entry entries ih => exact ih

/-! ## Lines -/

/-- The line has something else than separators. -/
def HasText : ConfigLine → Bool
  | .separators _ => false
  | _ => true

section Lines

variable {lines : List ConfigLine}

/-- The loop over lines with text, none of which sets the size of an archive. -/
theorem parseLines_steps (hlines : ∀ line ∈ lines, line.WellFormed)
    (htext : ∀ line ∈ lines, HasText line = true)
    (hsizeless : ∀ entry ∈ entries lines, Sizeless entry) :
    ∀ config, parseLines config (lines.map ConfigLine.text) =
      .ok (steps config (entries lines)) := by
  induction lines with
  | nil => exact fun _ => rfl
  | cons line lines ih =>
      intro config
      obtain ⟨hline, hrest⟩ := List.forall_mem_cons.mp hlines
      obtain ⟨hhas, hresttext⟩ := List.forall_mem_cons.mp htext
      cases line with
      | separators run => cases hhas
      | comment text =>
          rw [List.map_cons, ConfigLine.text, parseLines, if_pos rfl]
          exact ih hrest hresttext hsizeless config
      | assignment lead key values trail =>
          obtain ⟨c, text, hhead, hc⟩ := exists_head hline
          have htokens := tokenize_assignment hline
          have hentries : entries (.assignment lead key values trail :: lines) =
              (key, values.map Prod.snd) :: entries lines := rfl
          rw [hentries] at hsizeless ⊢
          obtain ⟨hsize, hrestsize⟩ := List.forall_mem_cons.mp hsizeless
          rw [hhead] at htokens
          rw [List.map_cons, hhead, parseLines, if_neg hc, htokens, handle_eq_step config hsize,
            Exec.ok_bind, steps, List.foldl_cons, Option.bind_some]
          cases step config (key, values.map Prod.snd) with
          | none => rw [steps_none]
          | some config => exact ih hrest hresttext hrestsize config

/-- The tokenizer drops the lines without text. -/
theorem parse_lines {σ : Type} [IReadableStream σ] [LawfulReadable σ] {s : σ} {c : Nat}
    (hlines : ∀ line ∈ lines, line.WellFormed) (h : Rep s (joined lines) c) :
    parse s =
      if ((lines.map ConfigLine.text).filter fun text => !text.isEmpty).isEmpty then .ok none
      else parseLines ⟨[], none⟩
        ((lines.map ConfigLine.text).filter fun text => !text.isEmpty) := by
  rw [parse]
  dsimp only
  rw [dataBytes_whole h, Exec.ok_bind, tokenize_lines hlines, joinedTokens_true]

/-- Lines without separators that stand alone, and without sizes of archives. -/
structure Orderable (lines : List ConfigLine) : Prop where
  separators : ∀ run, .separators run ∈ lines → run = []
  sizeless : ∀ entry ∈ entries lines, Sizeless entry

theorem HasText.text_ne_nil {line : ConfigLine} (hline : line.WellFormed)
    (h : HasText line = true) : line.text ≠ [] := by
  cases line with
  | separators run => cases h
  | comment text => exact List.cons_ne_nil _ _
  | assignment lead key values trail =>
      obtain ⟨c, text, htext, -⟩ := exists_head hline
      rw [htext]
      exact List.cons_ne_nil _ _

theorem filter_text (hlines : ∀ line ∈ lines, line.WellFormed)
    (hruns : ∀ run, .separators run ∈ lines → run = []) :
    (lines.map ConfigLine.text).filter (fun text => !text.isEmpty) =
      (lines.filter HasText).map ConfigLine.text := by
  rw [List.filter_map]
  congr 1
  refine List.filter_congr fun line hmem => ?_
  cases hhas : HasText line with
  | true =>
      have hne := HasText.text_ne_nil (hlines line hmem) hhas
      simpa using hne
  | false =>
      cases line with
      | separators run => simp [ConfigLine.text, hruns run hmem]
      | comment text => cases hhas
      | assignment lead key values trail => cases hhas

theorem entries_filter (lines : List ConfigLine) :
    entries (lines.filter HasText) = entries lines := by
  induction lines with
  | nil => rfl
  | cons line lines ih =>
      rw [List.filter_cons]
      cases line with
      | separators run => exact ih
      | comment text => exact ih
      | assignment lead key values trail =>
          exact congrArg ((key, values.map Prod.snd) :: ·) ih

/-- What such lines come to. -/
def ordered (lines : List ConfigLine) : Option CDNConfig :=
  if (lines.filter HasText).isEmpty then none else steps ⟨[], none⟩ (entries lines)

theorem parse_ordered {σ : Type} [IReadableStream σ] [LawfulReadable σ] {s : σ} {c : Nat}
    (hlines : ∀ line ∈ lines, line.WellFormed) (hok : Orderable lines)
    (h : Rep s (joined lines) c) : parse s = .ok (ordered lines) := by
  rw [parse_lines hlines h, filter_text hlines hok.separators, ordered, List.isEmpty_map]
  split
  · rfl
  · rw [parseLines_steps (fun line hmem => hlines line (List.mem_of_mem_filter hmem))
      (fun line hmem => (List.mem_filter.mp hmem).2) (by rw [entries_filter]; exact hok.sizeless),
      entries_filter]

/-- The lines in another order, or without those that have no text. -/
theorem ordered_eq {lines' : List ConfigLine} (hkeys : ((entries lines).map Prod.fst).Nodup)
    (h : (lines'.filter HasText).Perm (lines.filter HasText)) : ordered lines' = ordered lines := by
  have hentries : (entries lines').Perm (entries lines) := by
    rw [← entries_filter lines', ← entries_filter lines]
    exact h.filterMap _
  rw [ordered, ordered, steps_perm _ hkeys hentries.symm, h.isEmpty_eq]

end Lines

/-! ## Any order -/

/-- The parser returns one result for the lines in any order, and for those of
them that are not only separators. -/
def OrderFree (lines : List ConfigLine) : Prop :=
  ∃ result, ∀ (lines' : List ConfigLine) (b : Buffer),
    lines'.Perm lines ∨ lines' = lines.filter HasText → b.bytes = joined lines' →
      parse (FileStream.ofBuffer b) = .ok result ∧
        parse (GrowableMemoryStream.ofBuffer b) = .ok result

section Order

variable {lines : List ConfigLine} (hlines : ∀ line ∈ lines, line.WellFormed)

include hlines

theorem orderFree_of_orderable (hkeys : ((entries lines).map Prod.fst).Nodup)
    (hok : Orderable lines) : OrderFree lines := by
  refine ⟨ordered lines, fun lines' b hlines' hbytes => ?_⟩
  have hmem : ∀ line ∈ lines', line ∈ lines := by
    rcases hlines' with hperm | rfl
    · exact fun line hmem => hperm.mem_iff.mp hmem
    · exact fun line hmem => List.mem_of_mem_filter hmem
  have hfilter : (lines'.filter HasText).Perm (lines.filter HasText) := by
    rcases hlines' with hperm | rfl
    · exact hperm.filter _
    · rw [List.filter_filter]
      simp
  have hok' : Orderable lines' := by
    refine ⟨fun run hrun => hok.separators run (hmem _ hrun), fun entry hentry => ?_⟩
    obtain ⟨line, hline, hsome⟩ := List.mem_filterMap.mp hentry
    exact hok.sizeless entry (List.mem_filterMap.mpr ⟨line, hmem line hline, hsome⟩)
  have hwell : ∀ line ∈ lines', line.WellFormed := fun line hline => hlines line (hmem line hline)
  have hfile := FileStream.ofBuffer_rep b
  have hmemory := GrowableMemoryStream.ofBuffer_rep b
  rw [hbytes] at hfile hmemory
  rw [← ordered_eq hkeys hfilter]
  exact ⟨parse_ordered hwell hok' hfile, parse_ordered hwell hok' hmemory⟩

/-- A line in front of all others that is never got through. -/
theorem not_orderFree (hfit : (joined lines).length < 2 ^ 63) {line : ConfigLine}
    (hmem : line ∈ lines) (hne : line.text ≠ [])
    (hfault : ∀ rest, parseLines ⟨[], none⟩ (line.text :: rest) = .error .outOfBounds) :
    ¬ OrderFree lines := by
  rintro ⟨result, hall⟩
  have hperm : (line :: lines.erase line).Perm lines := (List.perm_cons_erase hmem).symm
  have hfits : (joined (line :: lines.erase line)).length < 2 ^ 63 := by
    rwa [joined_length_perm hperm]
  have hwell : ∀ l ∈ line :: lines.erase line, l.WellFormed := fun l hl =>
    hlines l (hperm.mem_iff.mp hl)
  have hkept : ∀ texts : List Bytes, (line.text :: texts).filter (fun text => !text.isEmpty) =
      line.text :: texts.filter fun text => !text.isEmpty := fun texts => by simp [hne]
  obtain ⟨hfile, -⟩ := hall _ ⟨_, hfits⟩ (Or.inl hperm) rfl
  rw [parse_lines hwell (FileStream.ofBuffer_rep _), List.map_cons,
    hkept, List.isEmpty_cons, if_neg Bool.false_ne_true, hfault] at hfile
  cases hfile

/-- When the order of the lines makes no difference. -/
theorem parse_order_iff (hfit : (joined lines).length < 2 ^ 63)
    (hkeys : ((entries lines).map Prod.fst).Nodup) : OrderFree lines ↔ Orderable lines := by
  refine ⟨fun horder => ⟨fun run hrun => ?_, fun entry hentry hsizes => ?_⟩,
    orderFree_of_orderable hlines hkeys⟩
  · by_contra hne
    refine not_orderFree hlines hfit hrun hne (fun rest => ?_) horder
    have hgap : IsGap run := hlines _ hrun
    cases run with
    | nil => exact absurd rfl hne
    | cons c run =>
        rw [ConfigLine.text, parseLines, if_neg hgap.head_ne_hash, tokenize_separators hgap]
        rfl
  · by_contra hne
    obtain ⟨line, hmem, hsome⟩ := List.mem_filterMap.mp hentry
    cases line with
    | separators run => cases hsome
    | comment text => cases hsome
    | assignment lead key values trail =>
        cases hsome
        have hline := hlines _ hmem
        obtain ⟨c, text, htext, hc⟩ := exists_head hline
        have htokens := tokenize_assignment hline
        rw [htext] at htokens
        have hnil : (ConfigLine.assignment lead key values trail).text ≠ [] := by
          rw [htext]
          exact List.cons_ne_nil c text
        refine not_orderFree hlines hfit hmem hnil (fun rest => ?_) horder
        obtain ⟨value, values', hvalues⟩ := List.exists_cons_of_ne_nil hne
        rw [htext, parseLines, if_neg hc, htokens]
        dsimp only at hsizes hvalues
        rw [hsizes, hvalues]
        rfl

end Order

/-- Two archives and a file index. -/
def sampleLines : List ConfigLine :=
  [keyLine "archives" ["ab", "cd"], .separators [], keyLine "file-index-size" ["7"],
    keyLine "file-index" ["ef"]]

theorem parse_order_sample : OrderFree sampleLines := by
  refine (parse_order_iff (by decide +kernel) (by decide +kernel) (by decide +kernel)).mpr
    ⟨fun run hrun => ?_, by decide⟩
  simpa [sampleLines, keyLine] using hrun

/-- The size of an archive in front of its name, a size too many, and a line of
separators. -/
theorem parse_order_wrong :
    parse (FileStream.ofBuffer ⟨joined [keyLine "archives" ["ab"],
      keyLine "archives-index-size" ["5"]], by decide⟩) =
        .ok (some ⟨[⟨ascii "ab", 5⟩], none⟩) ∧
    parse (FileStream.ofBuffer ⟨joined [keyLine "archives-index-size" ["5"],
      keyLine "archives" ["ab"]], by decide⟩) = .error .outOfBounds ∧
    ¬ OrderFree [keyLine "archives" ["ab"], keyLine "archives-index-size" ["5"]] ∧
    parse (FileStream.ofBuffer ⟨joined [keyLine "archives" ["ab"],
      keyLine "archives-index-size" ["5", "6"]], by decide⟩) = .error .outOfBounds ∧
    parse (FileStream.ofBuffer ⟨joined [keyLine "archives" ["ab"], .separators [32, 61]],
      by decide⟩) = .error .outOfBounds := by
  have hswapped : parse (FileStream.ofBuffer ⟨joined [keyLine "archives-index-size" ["5"],
      keyLine "archives" ["ab"]], by decide⟩) = .error .outOfBounds := by decide
  refine ⟨by decide, hswapped, ?_, by decide, by decide⟩
  rintro ⟨result, hall⟩
  obtain ⟨hfile, -⟩ := hall _ ⟨joined [keyLine "archives-index-size" ["5"],
    keyLine "archives" ["ab"]], by decide⟩ (Or.inl (List.Perm.swap _ _ [])) rfl
  cases hfile.symm.trans hswapped

end CDNConfig

end Tactmon
