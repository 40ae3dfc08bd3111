import VehicleTerminal.Library.CString
import VehicleTerminal.Library.Iteration
import VehicleTerminal.Library.Memory
import VehicleTerminal.Library.Simulation

/-! The search for pictures and voice files of `mmc_sd.c` over a directory that yields its entries
in order. A text that its array cannot hold leaves the search without result. -/
namespace VehicleTerminal.MediaSearch
open BlockMemory CString PartialLoop PartialRun

section Model

/-- What a directory entry says of a file; the name is given without its terminator. -/
structure FileInfo where
  fname : List UInt16
  fdate : UInt16
  ftime : UInt16
  named : fname ≠ [] ∧ 0 ∉ fname
  deriving DecidableEq

/-- A directory, and the contents of the files that can be opened. -/
structure Volume where
  entries : List FileInfo
  fOpen : List UInt16 → Option (List UInt8)

/-- The bytes `YY-MM-DD-hh-mm-ss`. -/
structure DayTime where
  year : UInt8
  month : UInt8
  day : UInt8
  hour : UInt8
  min : UInt8
  sec : UInt8
  deriving DecidableEq

structure Criterion where
  event : UInt8
  startTime : DayTime
  endTime : DayTime
  deriving DecidableEq

/-- The two directories that are searched, each with functions of its own. -/
inductive Media
  | jpeg
  | wav
  deriving DecidableEq

def Media.directory : Media → List UInt8
  | .jpeg => ascii "1:/JPEG/"
  | .wav => ascii "1:/WAV/"

def sizeofMediaRecord : ℕ := 36

def getIntTime (time : DayTime) : UInt32 :=
  ((time.year.toUInt32 + 2000 - 1980) <<< 25) ||| (time.month.toUInt32 <<< 21) |||
    (time.day.toUInt32 <<< 16) ||| (time.hour.toUInt32 <<< 11) ||| (time.min.toUInt32 <<< 5) |||
    (time.sec >>> 1).toUInt32

def checkDayTime (iStartTime iEndTime fileTime : UInt32) : Bool :=
  iStartTime < fileTime ∧ iEndTime > fileTime

/-- The text in `pDst` after the 100 rounds at most, if its terminator is written. -/
def ffNameForward (pSrc : List UInt16) : Option (List UInt8) :=
  let pDst := ((pSrc ++ [0]).take 100).map fun c : UInt16 => (c &&& 0xff).toUInt8
  if 0 ∈ pDst then some (pDst.takeWhile fun b => b ≠ 0) else none

def ffNameConver (pStr : List UInt8) : List UInt16 := pStr.map UInt8.toUInt16

/-- `f_lseek` to a place before the file stays at its end, where `f_read` finds nothing. -/
def lastRecord (file : List UInt8) : List UInt8 :=
  if sizeofMediaRecord ≤ file.length then file.drop (file.length - sizeofMediaRecord) else []

def checkEvent (media : Media) (event : UInt8) (fName : List UInt16) (volume : Volume) :
    Option Bool :=
  (ffNameForward fName).bind fun fileName =>
    let path := media.directory ++ fileName
    if path.length < 40 then
      some <| (volume.fOpen (ffNameConver path)).any fun file =>
        let buffer := blit (path ++ List.replicate (40 - path.length) 0) 0 (lastRecord file)
        buffer[7]? = some event
    else none

def checkJPEGEvent := checkEvent .jpeg
def checkWAVEvent := checkEvent .wav

/-- What a round of the search does with an entry. -/
inductive Verdict
  | hit (fileName : List UInt8)
  | goOn
  | wrongCriterion
  deriving DecidableEq

def fileTime (fileInfo : FileInfo) : UInt32 :=
  (fileInfo.fdate.toUInt32 <<< 16) ||| fileInfo.ftime.toUInt32

/-- The search conditions, for an entry whose name is in `FileName_1`. -/
def judge (media : Media) (volume : Volume) (crit : Criterion) (fileInfo : FileInfo)
    (fileName : List UInt8) : Option Verdict :=
  let iStartTime := getIntTime crit.startTime
  let iEndTime := getIntTime crit.endTime
  if crit.event = 0xff then
    if crit.startTime.year ≠ 0 ∧ crit.endTime.year ≠ 0 then
      some (if checkDayTime iStartTime iEndTime (fileTime fileInfo) then .hit fileName else .goOn)
    else some .wrongCriterion
  else if crit.startTime.year ≠ 0 ∧ crit.endTime.year ≠ 0 then
    if !checkDayTime iStartTime iEndTime (fileTime fileInfo) then some .goOn
    else
      (checkEvent media crit.event fileInfo.fname volume).map fun found =>
        if found then .hit fileName else .goOn
  else
    (checkEvent media crit.event fileInfo.fname volume).map fun found =>
      if found then .hit fileName else .goOn

def examine (media : Media) (volume : Volume) (crit : Criterion) (fileInfo : FileInfo) :
    Option Verdict :=
  (ffNameForward fileInfo.fname).bind fun fileName =>
    if fileName.head? = some 0x2e then some .goOn
    else if ascii "INDEX" <:+: fileName then some .goOn
    else judge media volume crit fileInfo fileName

/-- The result, the text in `Str`, the entries that are left and the counter. -/
structure Answer where
  result : ℕ
  str : List UInt8
  dir : List FileInfo
  searchCnt : ℕ

/-- `_SearchJPEG` and `_SearchWAV`. Each round reads an entry. -/
def _search (media : Media) (volume : Volume) (crit : Criterion) :
    List FileInfo → ℕ → List UInt8 → Option Answer
  | [], searchCnt, str => some ⟨0, str, [], searchCnt⟩
  | fileInfo :: pdir, searchCnt, str =>
    (examine media volume crit fileInfo).bind fun verdict =>
      match verdict with
      | .goOn => _search media volume crit pdir searchCnt str
      | .wrongCriterion => some ⟨0, str, pdir, searchCnt⟩
      | .hit fileName =>
        let str := fileName.take 8
        let searchCnt := (searchCnt + 1) % 256
        if searchCnt < 11 then some ⟨str.length, str, pdir, searchCnt⟩
        else some ⟨0, str, pdir, 0⟩

def _searchJPEG := _search .jpeg
def _searchWAV := _search .wav

/-- The static variables of one search. -/
structure Statics where
  status : UInt8
  dir : List FileInfo
  searchCnt : ℕ

/-- The search that a call goes on with: a new one reads the directory from its start. -/
def Statics.opened (s : Statics) (volume : Volume) : Statics :=
  if s.status = 0 then { s with dir := volume.entries, status := 1 } else s

def search (media : Media) (volume : Volume) (crit : Criterion) (s : Statics)
    (str : List UInt8) : Option (Statics × ℕ × List UInt8) :=
  let s := s.opened volume
  (_search media volume crit s.dir s.searchCnt str).map fun answer =>
    ({ status := if answer.result = 0 then 0 else s.status
       dir := answer.dir
       searchCnt := answer.searchCnt }, answer.result, answer.str)

def searchJPEG := search .jpeg
def searchWAV := search .wav

def Media.search : Media → Volume → Criterion → Statics → List UInt8 →
    Option (Statics × ℕ × List UInt8)
  | .jpeg => searchJPEG
  | .wav => searchWAV

/-- A search to its end: the calls with one criterion until a call returns 0. -/
structure Search where
  media : Media
  volume : Volume
  crit : Criterion

def initial : Media → Statics := fun _ => ⟨0, [], 0⟩

end Model

section Property

/-- A search names an event, a time range or both. -/
abbrev Criterion.timed (crit : Criterion) : Prop :=
  crit.startTime.year ≠ 0 ∧ crit.endTime.year ≠ 0

/-- The name in single bytes. -/
def FileInfo.text (fileInfo : FileInfo) : List UInt8 :=
  (fileInfo.fname.map fun c : UInt16 => (c &&& 0xff).toUInt8).takeWhile fun b => b ≠ 0

/-- Index files and hidden files are not searched. -/
def FileInfo.Searched (fileInfo : FileInfo) : Prop :=
  fileInfo.text.head? ≠ some 0x2e ∧ ¬ ascii "INDEX" <:+: fileInfo.text

/-- The file was written inside the range, if one is given. -/
def InTime (crit : Criterion) (fileInfo : FileInfo) : Prop :=
  crit.timed →
    getIntTime crit.startTime < fileTime fileInfo ∧ fileTime fileInfo < getIntTime crit.endTime

def pathOf (media : Media) (fileInfo : FileInfo) : List UInt8 := media.directory ++ fileInfo.text

/-- The file ends with a record, and this names the event, if one is given. -/
def HasEvent (media : Media) (volume : Volume) (crit : Criterion) (fileInfo : FileInfo) : Prop :=
  crit.event ≠ 0xff →
    ∃ file ∈ volume.fOpen (ffNameConver (pathOf media fileInfo)),
      sizeofMediaRecord ≤ file.length ∧
        file[file.length - sizeofMediaRecord + 7]? = some crit.event

def Matching (media : Media) (volume : Volume) (crit : Criterion) (fileInfo : FileInfo) : Prop :=
  fileInfo.Searched ∧ InTime crit fileInfo ∧ HasEvent media volume crit fileInfo

instance (fileInfo : FileInfo) : Decidable fileInfo.Searched := inferInstanceAs (Decidable (_ ∧ _))

instance (crit : Criterion) (fileInfo : FileInfo) : Decidable (InTime crit fileInfo) :=
  inferInstanceAs (Decidable (_ → _))

instance (media : Media) (volume : Volume) (crit : Criterion) (fileInfo : FileInfo) :
    Decidable (HasEvent media volume crit fileInfo) :=
  inferInstanceAs (Decidable (_ → _))

instance (media : Media) (volume : Volume) (crit : Criterion) :
    DecidablePred (Matching media volume crit) :=
  fun _ => inferInstanceAs (Decidable (_ ∧ _ ∧ _))

/-- The arrays hold the texts of this entry, a record is not looked for in a shorter file whose
path has the event in its place, and what is put out for a match is not empty. -/
structure Sound (media : Media) (volume : Volume) (crit : Criterion) (fileInfo : FileInfo) :
    Prop where
  terminated : fileInfo.text.length < 100
  fits : fileInfo.Searched → InTime crit fileInfo → crit.event ≠ 0xff →
    (pathOf media fileInfo).length < 40
  recorded : fileInfo.Searched → InTime crit fileInfo → crit.event ≠ 0xff →
    ∀ file ∈ volume.fOpen (ffNameConver (pathOf media fileInfo)),
      file.length < sizeofMediaRecord → (pathOf media fileInfo ++ [0])[7]? ≠ some crit.event
  serial : Matching media volume crit fileInfo → fileInfo.text ≠ []

section Entries

variable {media : Media} {volume : Volume} {crit : Criterion} {fileInfo : FileInfo}

end Entries

section Searches

variable {i : Search} {pdir front rest : List FileInfo} {fileInfo : FileInfo} {searchCnt : ℕ}
  {statics : Media → Statics}

abbrev Search.Sound (i : Search) (fileInfo : FileInfo) : Prop :=
  MediaSearch.Sound i.media i.volume i.crit fileInfo

abbrev Search.Matches (i : Search) (fileInfo : FileInfo) : Prop :=
  Matching i.media i.volume i.crit fileInfo

/-- What is put out for a file. -/
def serial (fileInfo : FileInfo) : List UInt8 := fileInfo.text.take 8

/-- The answer at a match. -/
def found (fileInfo : FileInfo) (rest : List FileInfo) (searchCnt : ℕ) : Answer :=
  if searchCnt + 1 < 11 then
    ⟨(serial fileInfo).length, serial fileInfo, rest, searchCnt + 1⟩
  else ⟨0, serial fileInfo, rest, 0⟩

/-- The matching files in the order of the directory. -/
def Search.matches (i : Search) : List FileInfo := i.volume.entries.filter i.Matches

/-- The counter still has room when the search comes to this entry. -/
def Search.Reaches (i : Search) (searchCnt : ℕ) (pdir : List FileInfo) (fileInfo : FileInfo) :
    Prop :=
  ∃ front rest, pdir = front ++ fileInfo :: rest ∧
    searchCnt + (front.filter i.Matches).length ≤ 10

theorem Search.Reaches.mem (h : i.Reaches searchCnt pdir fileInfo) : fileInfo ∈ pdir := by
  obtain ⟨front, rest, rfl, -⟩ := h
  simp

theorem Search.Reaches.behind {f : FileInfo} (h : i.Reaches (searchCnt + 1) rest fileInfo)
    (hnone : ∀ g ∈ front, ¬ i.Matches g) (hmatch : i.Matches f) :
    i.Reaches searchCnt (front ++ f :: rest) fileInfo := by
  obtain ⟨between, after, rfl, hroom⟩ := h
  have hempty : front.filter i.Matches = [] := by
    simpa [List.filter_eq_nil_iff] using hnone
  refine ⟨front ++ f :: between, after, by simp, ?_⟩
  have hfilter : (f :: between).filter i.Matches = f :: between.filter i.Matches :=
    List.filter_cons_of_pos (by simpa using hmatch)
  rw [List.filter_append, hempty, List.nil_append, hfilter, List.length_cons]
  omega

/-- The static variables between two whole searches. -/
structure Ready (statics : Media → Statics) : Prop where
  idle : ∀ media, (statics media).status = 0
  counted : ∀ media, (statics media).searchCnt ≤ 10

theorem Ready.update (hready : Ready statics) (media : Media) (dir : List FileInfo)
    (hcnt : searchCnt ≤ 10) : Ready (Function.update statics media ⟨0, dir, searchCnt⟩) := by
  constructor
  · intro other
    by_cases hother : other = media
    · rw [hother, Function.update_self]
    · rw [Function.update_of_ne hother]
      exact hready.idle other
  · intro other
    by_cases hother : other = media
    · rw [hother, Function.update_self]
      exact hcnt
    · rw [Function.update_of_ne hother]
      exact hready.counted other

/-- The counter has room for all that this search finds, or starts it at 0. -/
def Counted (statics : Media → Statics) (i : Search) : Prop :=
  (statics i.media).searchCnt = 0 ∨ (statics i.media).searchCnt + i.matches.length ≤ 10

/-- The entries that are reached can be handled, and the counter leaves room for the search. -/
def Undisturbed (statics : Media → Statics) (i : Search) : Prop :=
  (∀ f, i.Reaches (statics i.media).searchCnt i.volume.entries f → i.Sound f) ∧ Counted statics i

end Searches

section Runs

/-- The file of a digit, of the first day of 2013. -/
def picture (digit : Fin 10) : FileInfo :=
  ⟨[0x30 + UInt16.ofNat digit.val], 0x4221, 0, by revert digit; decide⟩

end Runs

end Property

end VehicleTerminal.MediaSearch
