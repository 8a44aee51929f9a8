import Tactmon.Detail.Tokenizer
import Tactmon.Lib.Text

/-!
# Records of Ribbit

The rows of the four tables, `ribbit/types/Summary.cpp`,
`ribbit/types/Versions.cpp`, `ribbit/types/CDNs.cpp` and
`ribbit/types/BGDL.cpp`.  A row is cut at the bars.  The tokenizer leaves out an
empty last token, so a row whose last column is empty has one token less.

The parsers look at the number of columns and at the numbers.  The columns that
hold keys are taken as they are (`Versions.parse_row`).
-/

namespace Tactmon

namespace Ribbit

open Binary Text Detail

/-- `|`. -/
def bar : UInt8 := 124

/-- The separator of host names. -/
def space : UInt8 := 32

/-- The columns of a row. -/
def columns (input : Bytes) : List Bytes := tokenize bar false input

/-- `std::from_chars` into a `uint32_t`. -/
def readUInt32 (token : Bytes) : Option UInt32 := (fromChars 32 token).map UInt32.ofNat

/-- The loop of `boost::split` with compressed separators, in a piece that
began with `elem`. -/
def splitFrom (isSeparator : UInt8 → Bool) : Bool → Bytes → Bytes → List Bytes
  | _, elem, [] => [elem]
  | adjacent, elem, c :: input =>
      if isSeparator c then
        if adjacent then splitFrom isSeparator true elem input
        else elem :: splitFrom isSeparator true [] input
      else splitFrom isSeparator false (elem ++ [c]) input

/-- `boost::split` at spaces, with `token_compress_on`. -/
def splitSpaces (input : Bytes) : List Bytes := splitFrom (· = space) false [] input

/-! ## Records -/

/-- `summary::Record`. -/
structure Summary where
  product : Bytes
  sequenceID : UInt32
  flags : Bytes
deriving DecidableEq, Repr

/-- `versions::Record`. -/
structure Versions where
  region : Bytes
  buildConfig : Bytes
  cdnConfig : Bytes
  keyRing : Bytes
  buildID : UInt32
  versionsName : Bytes
  productConfig : Bytes
deriving DecidableEq, Repr

/-- `cdns::Record`. -/
structure CDN where
  name : Bytes
  path : Bytes
  hosts : List Bytes
  servers : List Bytes
  configPath : Bytes
deriving DecidableEq, Repr

/-- `bgdl::Record`. -/
structure BGDL where
  region : Bytes
  buildConfig : Bytes
  cdnConfig : Bytes
  keyRing : Bytes
  buildID : UInt32
  versionsName : Bytes
  productConfig : Bytes
deriving DecidableEq, Repr

/-- `summary::Record::Parse`. -/
def Summary.parse (input : Bytes) : Option Summary :=
  match columns input with
  | [product, sequenceID] => (readUInt32 sequenceID).map (⟨product, ·, []⟩)
  | [product, sequenceID, flags] => (readUInt32 sequenceID).map (⟨product, ·, flags⟩)
  | _ => none

/-- `versions::Record::Parse`. -/
def Versions.parse (input : Bytes) : Option Versions :=
  match columns input with
  | [region, buildConfig, cdnConfig, keyRing, buildID, versionsName, productConfig] =>
      (readUInt32 buildID).map
        (⟨region, buildConfig, cdnConfig, keyRing, ·, versionsName, productConfig⟩)
  | _ => none

/-- `cdns::Record::Parse`. -/
def CDN.parse (input : Bytes) : Option CDN :=
  match columns input with
  | [name, path, hosts, servers, configPath] =>
      some ⟨name, path, splitSpaces hosts, splitSpaces servers, configPath⟩
  | _ => none

/-- `bgdl::Record::Parse`. -/
def BGDL.parse (input : Bytes) : Option BGDL :=
  match columns input with
  | [region, buildConfig, cdnConfig, keyRing, buildID, versionsName, productConfig] =>
      (readUInt32 buildID).map
        (⟨region, buildConfig, cdnConfig, keyRing, ·, versionsName, productConfig⟩)
  | _ => none

/-- The row of a version. -/
def Versions.row (record : Versions) : Bytes :=
  record.region ++ slashed bar [record.buildConfig, record.cdnConfig, record.keyRing,
    decimal record.buildID.toNat, record.versionsName, record.productConfig]

theorem readUInt32_decimal (n : UInt32) : readUInt32 (decimal n.toNat) = some n := by
  rw [readUInt32, fromChars_decimal n.toNat_lt, Option.map_some, UInt32.ofNat_toNat]

/-- Any columns without bars are accepted, except for an empty last one. -/
theorem Versions.parse_row {record : Versions}
    (h : ∀ column ∈ [record.region, record.buildConfig, record.cdnConfig, record.keyRing,
      record.versionsName, record.productConfig], bar ∉ column)
    (hne : record.productConfig ≠ []) : parse record.row = some record := by
  simp only [List.forall_mem_cons] at h
  obtain ⟨hregion, hbuild, hcdn, hkeys, hname, hproduct, -⟩ := h
  have hpieces : ∀ piece ∈ [record.buildConfig, record.cdnConfig, record.keyRing,
      decimal record.buildID.toNat, record.versionsName], bar ∉ piece := by
    simp only [List.forall_mem_cons]
    exact ⟨hbuild, hcdn, hkeys, not_mem_decimal rfl, hname, fun _ hc => absurd hc
      List.not_mem_nil⟩
  have htokens := tokenize_slashed hregion hpieces hproduct hne
  rw [List.cons_append, List.cons_append, List.cons_append, List.cons_append, List.cons_append,
    List.nil_append] at htokens
  rw [parse, columns, row, htokens]
  simp only [readUInt32_decimal, Option.map_some]

example : CDN.parse (ascii "us|tpr/wow|a.net  b.net|http://a.net|tpr/configs") =
    some ⟨ascii "us", ascii "tpr/wow", [ascii "a.net", ascii "b.net"], [ascii "http://a.net"],
      ascii "tpr/configs"⟩ := by decide

end Ribbit

end Tactmon
