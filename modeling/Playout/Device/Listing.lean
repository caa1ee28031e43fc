import Playout.Device.Capabilities
import Playout.Text.Blank

/-!
# Codec listings

The names of the encoders and decoders that ffmpeg lists, one to a line, and the facts about an
accelerator that can be told from them.
-/

namespace Playout

/-- A name at its place in an ascending list, once. -/
def insertName (name : String) : List String → List String
  | [] => [name]
  | m :: rest =>
    if name = m then m :: rest
    else if name < m then name :: m :: rest
    else m :: insertName name rest

@[simp] theorem mem_insertName {x name : String} {names : List String} :
    x ∈ insertName name names ↔ x = name ∨ x ∈ names := by
  induction names with
  | nil => simp [insertName]
  | cons m rest ih =>
    unfold insertName
    split
    · next h => simp [h]
    · split
      · simp
      · simp only [List.mem_cons, ih]
        constructor
        · rintro (h | h | h) <;> simp [h]
        · rintro (h | h | h) <;> simp [h]

namespace ListingLine

def isKind (c : Char) : Bool := c == 'V' || c == 'A' || c == 'S'

def isFlag (c : Char) : Bool := (0x41 ≤ c.toNat && c.toNat ≤ 0x5a) || c == '.'

/-- What follows the six flag characters that a line starts with, blanks aside. -/
def afterFlags? (line : List Char) : Option (List Char) :=
  match line.dropWhile isBlank with
  | kind :: a :: b :: c :: d :: e :: rest =>
    if isKind kind && [a, b, c, d, e].all isFlag then some rest else none
  | _ => none

/-- The name on a line: the word that blanks divide from the flags. -/
def name? (line : List Char) : Option String :=
  match afterFlags? line with
  | some (c :: rest) =>
    let word := firstWord (rest.dropWhile isBlank)
    if isBlank c && !word.isEmpty then some (String.ofList word) else none
  | _ => none

end ListingLine

/-- The lines of a text; a carriage return before a line feed belongs to the line's end. -/
def linesOf (text : String) : List (List Char) :=
  let pieces := splitAt '\n' text.toList
  pieces.dropLast.map withoutReturn ++ pieces.getLast?.toList
where
  withoutReturn (line : List Char) : List Char :=
    if line.getLast? = some '\r' then line.dropLast else line

/-- The names in a listing, ascending, without the `=` of its legend. -/
def namesOf (listing : String) : List String :=
  ((linesOf listing).filterMap ListingLine.name?).foldl
    (fun names name => if name = "=" then names else insertName name names) []

structure CodecListing where
  encoders : List String := []
  decoders : List String := []
deriving DecidableEq

namespace CodecListing

def parse (encoders decoders : String) : CodecListing := ⟨namesOf encoders, namesOf decoders⟩

/-- The first accelerator, of a fixed order, whose H.264 encoder is listed. -/
def preferred (l : CodecListing) : Accelerator :=
  ([.nvenc, .qsv, .vaapi, .videoToolbox, .amf].find? fun (a : Accelerator) =>
    l.encoders.contains ("h264_" ++ a.text)).getD .none

/-- The formats that accelerators know. -/
def formats : List VideoFormat := [.h264, .hevc, .mpeg2video, .mpeg4, .vc1, .vp9, .av1]

def depths : VideoFormat → List Nat
  | .hevc | .vp9 | .av1 => [8, 10]
  | _ => [8]

def encodes (l : CodecListing) (a : Accelerator) (format : VideoFormat) : Bool :=
  match format.deviceText? with
  | some codec => a.isHardware && l.encoders.contains (codec ++ "_" ++ a.text)
  | none => false

/-- Two accelerators decode without a decoder of their own; the usual formats are taken for
granted where their H.264 encoder is listed. -/
def decodes (l : CodecListing) (a : Accelerator) (format : VideoFormat) : Bool :=
  match format.deviceText? with
  | none => false
  | some codec =>
    match a with
    | .nvenc => l.decoders.contains (codec ++ "_cuvid")
    | .qsv => l.decoders.contains (codec ++ "_qsv")
    | .vaapi | .videoToolbox =>
      l.encoders.contains ("h264_" ++ a.text) && format != .mpeg4
    | .none | .amf => false

def capabilities (l : CodecListing) (a : Accelerator) : Capabilities where
  decoders := (formats.filter (l.decodes a)).map fun f => ⟨f, depths f⟩
  encoders := (formats.filter (l.encodes a)).map fun f => ⟨f, depths f⟩

end CodecListing

/-- What a program that ran left behind. -/
structure ProgramOutput where
  stdout : String := ""
  stderr : String := ""
  exit : Int := 0

/-- The listing of a program asked for its encoders, then for its decoders.  A program that cannot
be run, or fails, lists nothing. -/
def CodecListing.ofProgram (encoders decoders : Option ProgramOutput) : CodecListing :=
  match encoders, decoders with
  | some e, some d => if e.exit = 0 ∧ d.exit = 0 then parse e.stdout d.stdout else {}
  | _, _ => {}

end Playout
