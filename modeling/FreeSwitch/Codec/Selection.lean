/-
**Lists of codecs.**

`switch_loadable_module_get_codecs` and `switch_loadable_module_get_codecs_sorted` fill an array of
the caller with implementations and then sort it by packet time. The array is the cells that were
written, from the first on, with the indices of all writes. Both functions look at the length of the
array only behind a store.

* `codec_lists_iff`: the writes are inside the array exactly when there are no more codecs, or
  preferences that select an implementation, than it has places.
-/

import FreeSwitch.Lib.CString

namespace FreeSwitch

open CString List

/-! ### Codecs -/

inductive CodecType
  | audio
  | video
  | t38
  | app
deriving DecidableEq

/-- `switch_codec_implementation_t`, as far as a codec is chosen by it. -/
structure CodecImplementation where
  codecType : CodecType
  iananame : Text
  samplesPerSecond : Nat
  actualSamplesPerSecond : Nat
  bitsPerSecond : Int
  microsecondsPerPacket : Int
deriving DecidableEq

/-- A codec of the hash, put there under the name of one of its implementations. -/
structure CodecInterface where
  implementations : List CodecImplementation
  nonempty : implementations ≠ []
deriving DecidableEq

/-- The codec hash in the order of its walk, and the configured packet times. -/
structure LoadedCodecs where
  codecs : List (Text × CodecInterface)
  ptimes : List (Text × Nat)
deriving DecidableEq

/-- A number as an `uint32_t`. -/
def toUint32 (i : Int) : Nat := (i % 2 ^ 32).toNat

/-- `microseconds_per_packet / 1000`. -/
def CodecImplementation.ptime (imp : CodecImplementation) : Int :=
  imp.microsecondsPerPacket.tdiv 1000

/-- `crate`. -/
def CodecImplementation.rate (imp : CodecImplementation) : Nat :=
  if ciEq imp.iananame "g722" then imp.samplesPerSecond else imp.actualSamplesPerSecond

variable (array : CodecArray) (loaded : LoadedCodecs)

/-- `switch_default_ptime`. -/
def LoadedCodecs.defaultPtime (name : Text) : Nat :=
  ((loaded.ptimes.find? fun entry => ciEq entry.1 name).map Prod.snd).getD 20

def defaultRate (name : Text) : Nat := if ciEq name "opus" then 48000 else 8000

/-- `switch_loadable_module_get_codec_interface`. The hash compares without case, so the upper and
the lower case name find no more. -/
def LoadedCodecs.codecInterface (name : Text) : Option CodecInterface :=
  (loaded.codecs.find? fun entry => ciEq entry.1 name).map Prod.snd

/-! ### The array -/

open LoadedCodecs

structure CodecArray where
  cells : Array CodecImplementation
  writes : List Nat
deriving DecidableEq

def CodecArray.empty : CodecArray := ⟨#[], []⟩

/-- `array[i++] = imp`. -/
def CodecArray.push (array : CodecArray) (imp : CodecImplementation) : CodecArray :=
  ⟨array.cells.push imp, array.writes ++ [array.cells.size]⟩

/-- `do_swap`. -/
def CodecArray.swap (a b : Nat) : CodecArray :=
  ⟨array.cells.swapIfInBounds a b, array.writes ++ [b, a]⟩

/-! ### Sorting -/

def sortPtime (imp : CodecImplementation) : Int :=
  if ciEq imp.iananame "ilbc" then 20 else imp.ptime

/-- The inner loop of `switch_loadable_module_sort_codecs`: the first cell from `i` on with the
packet time `sorted`, where the name compared is that of cell `i`. -/
def findPtime (cells : Array CodecImplementation) (imp : CodecImplementation) (sorted : Int)
    (i : Nat) : Option Nat :=
  (List.range' i (cells.size - i)).find? fun j =>
    cells[j]?.any fun other =>
      (if ciEq imp.iananame "ilbc" then 20 else other.ptime) = sorted

/-- A pass of the outer loop; the second part of the state is `sorted_ptime`. -/
def sortPass (state : CodecArray × Int) (i : Nat) : CodecArray × Int :=
  match state.1.cells[i]? with
  | none => state
  | some imp =>
    let sorted := if state.2 = 0 then sortPtime imp else state.2
    let renamed := i > 0 && state.1.cells[i - 1]?.any fun last => !ciEq imp.iananame last.iananame
    if renamed && sortPtime imp ≠ sorted then
      match findPtime state.1.cells imp sorted i with
      | some j => (state.1.swap i j, sorted)
      | none => (state.1, sortPtime imp)
    else (state.1, sorted)

def sortCodecs (array : CodecArray) : CodecArray :=
  ((List.range array.cells.size).foldl sortPass (array, 0)).1

/-! ### All codecs -/

def LoadedCodecs.preferred (codec : CodecInterface) : CodecImplementation :=
  (codec.implementations.find? fun imp =>
    imp.ptime = Int.bmod (loaded.defaultPtime imp.iananame) (2 ^ 32)).getD
      (codec.implementations.head codec.nonempty)

/-- The loop of `switch_loadable_module_get_codecs`. -/
def LoadedCodecs.collect (loaded : LoadedCodecs) (arraylen : Nat) :
    CodecArray → List (Text × CodecInterface) → CodecArray
  | array, [] => array
  | array, (_, codec) :: codecs =>
    let array := array.push (loaded.preferred codec)
    if array.cells.size > arraylen then array else loaded.collect arraylen array codecs

/-- `switch_loadable_module_get_codecs`. It returns the number of cells. -/
def LoadedCodecs.getCodecs (arraylen : Nat) : CodecArray :=
  sortCodecs (loaded.collect arraylen .empty loaded.codecs)

/-! ### Preferences -/

/-- What `switch_parse_codec_buf` reads from a preference; zero is not given. -/
structure CodecSpec where
  name : Text
  interval : Nat
  rate : Nat
  bit : Nat
deriving DecidableEq

variable (spec : CodecSpec)

/-- A part behind an `@`. -/
def CodecSpec.part (cur : Text) : CodecSpec :=
  if 'i' ∈ cur then { spec with interval := toUint32 (atoi cur) }
  else if 'k' ∈ cur ∨ 'h' ∈ cur then { spec with rate := toUint32 (atoi cur) }
  else if 'b' ∈ cur then { spec with bit := toUint32 (atoi cur) }
  else spec

/-- `switch_parse_codec_buf` of a copy of the preference in 256 bytes. -/
def parseCodecBuf (pref : Text) : CodecSpec :=
  let parts := (snprintf 256 pref).splitOn '@'
  parts.tail.foldl CodecSpec.part ⟨parts.headD [], 0, 0, 0⟩

def LoadedCodecs.filled (spec : CodecSpec) : CodecSpec :=
  { spec with
    interval := if spec.interval = 0 then loaded.defaultPtime spec.name else spec.interval
    rate := if spec.rate = 0 then defaultRate spec.name else spec.rate }

def LoadedCodecs.repeats (spec earlier : CodecSpec) : Bool :=
  let spec := loaded.filled spec
  let earlier := loaded.filled earlier
  ciEq spec.name earlier.name && spec.interval = earlier.interval && spec.rate = earlier.rate

def LoadedCodecs.matchesDefault (imp : CodecImplementation) : Bool :=
  imp.codecType = .video ||
    ((toUint32 imp.ptime =
        if spec.interval = 0 then loaded.defaultPtime imp.iananame else spec.interval) &&
      (if spec.rate = 0 then imp.rate = defaultRate imp.iananame
        else imp.actualSamplesPerSecond = spec.rate) &&
      (spec.bit = 0 || toUint32 imp.bitsPerSecond = spec.bit))

def matchesGiven (imp : CodecImplementation) : Bool :=
  imp.codecType = .video ||
    ((spec.interval = 0 || toUint32 imp.ptime = spec.interval) &&
      (spec.rate = 0 || imp.rate = spec.rate) &&
      (spec.bit = 0 || toUint32 imp.bitsPerSecond = spec.bit))

def LoadedCodecs.select (codec : CodecInterface) : Option CodecImplementation :=
  (codec.implementations.find? (loaded.matchesDefault spec)).or
    (codec.implementations.find? (matchesGiven spec))

/-- The loop of `switch_loadable_module_get_codecs_sorted`, behind the preferences `earlier`. -/
def LoadedCodecs.collectSorted (loaded : LoadedCodecs) (arraylen : Nat) :
    CodecArray → (earlier prefs : List Text) → CodecArray
  | array, _, [] => array
  | array, earlier, pref :: prefs =>
    let spec := parseCodecBuf pref
    if earlier.any fun other => loaded.repeats spec (parseCodecBuf other) then
      loaded.collectSorted arraylen array (earlier ++ [pref]) prefs
    else
      match loaded.codecInterface spec.name with
      | none => loaded.collectSorted arraylen array (earlier ++ [pref]) prefs
      | some codec =>
        let array := ((loaded.select spec codec).map array.push).getD array
        if array.cells.size > arraylen then array
        else loaded.collectSorted arraylen array (earlier ++ [pref]) prefs

/-- `switch_loadable_module_get_codecs_sorted`. It returns the number of cells. -/
def LoadedCodecs.getCodecsSorted (arraylen : Nat) (prefs : List Text) : CodecArray :=
  sortCodecs (loaded.collectSorted arraylen .empty [] prefs)

/-! ### What sorting does -/

section Sorting

structure Sorts (before after : CodecArray) : Prop where
  perm : after.cells.Perm before.cells
  first : after.cells[0]? = before.cells[0]?
  writes : ∃ more, after.writes = before.writes ++ more ∧ ∀ i ∈ more, i < before.cells.size

theorem Sorts.refl (array : CodecArray) : Sorts array array := ⟨.refl _, rfl, [], by simp, nofun⟩

theorem Sorts.trans {a b c : CodecArray} (first : Sorts a b) (second : Sorts b c) : Sorts a c := by
  obtain ⟨more, writes, inside⟩ := first.writes
  obtain ⟨more', writes', inside'⟩ := second.writes
  refine ⟨second.perm.trans first.perm, second.first.trans first.first, more ++ more', ?_, ?_⟩
  · rw [writes', writes, append_assoc]
  · intro i member
    rcases mem_append.mp member with early | late
    · exact inside i early
    · rw [← first.perm.size_eq]
      exact inside' i late

theorem swap_sorts {a b : Nat} (positive : 0 < a) (ordered : a ≤ b) (inside : b < array.cells.size)
    : Sorts array (array.swap a b) := by
  have swapped : array.cells.swapIfInBounds a b =
      array.cells.swap a b (by omega) inside := by
    simp [Array.swapIfInBounds, inside, show a < array.cells.size by omega]
  refine ⟨?_, ?_, [b, a], rfl, ?_⟩
  · show (array.cells.swapIfInBounds a b).Perm array.cells
    rw [swapped]
    exact Array.swap_perm ..
  · show (array.cells.swapIfInBounds a b)[0]? = array.cells[0]?
    rw [swapped, Array.getElem?_swap, if_neg (by omega), if_neg (by omega)]
  · intro i member
    simp only [mem_cons, not_mem_nil, or_false] at member
    omega

theorem findPtime_inside {cells : Array CodecImplementation} {imp : CodecImplementation}
    {sorted : Int} {i j : Nat} (found : findPtime cells imp sorted i = some j) :
    i ≤ j ∧ j < cells.size := by
  have member := mem_of_find?_eq_some found
  rw [mem_range'_1] at member
  omega

theorem sortPass_sorts (state : CodecArray × Int) (i : Nat) :
    Sorts state.1 (sortPass state i).1 := by
  unfold sortPass
  split
  · exact .refl _
  next imp _ =>
    dsimp only
    generalize (if state.2 = 0 then sortPtime imp else state.2) = sorted
    split
    next renamed =>
      have positive : 0 < i := by
        simp only [Bool.and_eq_true, decide_eq_true_eq] at renamed
        exact renamed.1.1
      split
      next j found =>
        obtain ⟨after, inside⟩ := findPtime_inside found
        exact swap_sorts state.1 positive after inside
      next => exact .refl _
    next => exact .refl _

/-- **Sorting permutes the cells, leaves the first one**, and writes no further than they are. -/
theorem sortCodecs_spec : Sorts array (sortCodecs array) := by
  have passes (indices : List Nat) (state : CodecArray × Int) :
      Sorts state.1 (indices.foldl sortPass state).1 := by
    induction indices generalizing state with
    | nil => exact .refl _
    | cons i indices ih => exact (sortPass_sorts state i).trans (ih (sortPass state i))
  exact passes (List.range array.cells.size) (array, 0)

end Sorting

/-! ### The length of the array -/

/-- All writes are inside `arraylen` places, and so is the number returned. -/
def CodecArray.InBounds (arraylen : Nat) : Prop :=
  (∀ i ∈ array.writes, i < arraylen) ∧ array.cells.size ≤ arraylen

def CodecArray.Sequential (array : CodecArray) : Prop :=
  array.writes = List.range array.cells.size

section Bounds

variable {loaded : LoadedCodecs} {arraylen : Nat} {array : CodecArray}

@[simp] theorem push_size (imp : CodecImplementation) :
    (array.push imp).cells.size = array.cells.size + 1 := Array.size_push ..

theorem push_sequential (sequential : array.Sequential) (imp : CodecImplementation) :
    (array.push imp).Sequential := by
  show array.writes ++ [array.cells.size] = List.range (array.push imp).cells.size
  rw [sequential, push_size, range_succ]

theorem sortCodecs_inBounds (sequential : array.Sequential) :
    (sortCodecs array).InBounds arraylen ↔ array.cells.size ≤ arraylen := by
  have sorts := sortCodecs_spec array
  obtain ⟨more, writes, inside⟩ := sorts.writes
  have size := sorts.perm.size_eq
  constructor
  · rintro ⟨-, short⟩
    omega
  · intro short
    refine ⟨fun i member => ?_, by omega⟩
    rw [writes, mem_append, sequential, mem_range] at member
    rcases member with filled | swapped
    · omega
    · have := inside i swapped
      omega

theorem collect_sequential (sequential : array.Sequential) (codecs : List (Text × CodecInterface)) :
    (loaded.collect arraylen array codecs).Sequential := by
  fun_induction collect loaded arraylen array codecs with
  | case1 => exact sequential
  | case2 => exact push_sequential sequential _
  | case3 array name codec codecs array' goes ih => exact ih (push_sequential sequential _)

theorem collect_size (short : array.cells.size ≤ arraylen) (codecs : List (Text × CodecInterface)) :
    (loaded.collect arraylen array codecs).cells.size ≤ arraylen ↔
      array.cells.size + codecs.length ≤ arraylen := by
  fun_induction collect loaded arraylen array codecs with
  | case1 => simp
  | case2 array name codec codecs array' full =>
    have size : array'.cells.size = array.cells.size + 1 := push_size _
    simp only [length_cons]
    omega
  | case3 array name codec codecs array' goes ih =>
    have size : array'.cells.size = array.cells.size + 1 := push_size _
    rw [ih (by omega), size, length_cons]
    omega

/-- What a preference adds: it repeats none of the earlier ones, its codec is loaded, and one of its
implementations is as it asks. -/
def LoadedCodecs.choice (loaded : LoadedCodecs) (earlier : List Text) (pref : Text) :
    Option CodecImplementation :=
  if earlier.any fun other => loaded.repeats (parseCodecBuf pref) (parseCodecBuf other) then none
  else (loaded.codecInterface (parseCodecBuf pref).name).bind (loaded.select (parseCodecBuf pref))

/-- The implementations that preferences choose, behind `earlier` ones. -/
def LoadedCodecs.choices (loaded : LoadedCodecs) : (earlier prefs : List Text) →
    List CodecImplementation
  | _, [] => []
  | earlier, pref :: prefs =>
    (loaded.choice earlier pref).toList ++ loaded.choices (earlier ++ [pref]) prefs

theorem collectSorted_cons (short : array.cells.size ≤ arraylen) (earlier : List Text) (pref : Text)
    (prefs : List Text) :
    loaded.collectSorted arraylen array earlier (pref :: prefs) =
      match loaded.choice earlier pref with
      | none => loaded.collectSorted arraylen array (earlier ++ [pref]) prefs
      | some imp =>
        if arraylen < array.cells.size + 1 then array.push imp
        else loaded.collectSorted arraylen (array.push imp) (earlier ++ [pref]) prefs := by
  rw [collectSorted, choice]
  split
  · rfl
  · cases found : loaded.codecInterface (parseCodecBuf pref).name with
    | none => rfl
    | some codec =>
      dsimp only [Option.bind_some]
      cases selected : loaded.select (parseCodecBuf pref) codec with
      | none => exact if_neg (Nat.not_lt.mpr short)
      | some imp => simp [push_size]

theorem collectSorted_sequential (short : array.cells.size ≤ arraylen)
    (sequential : array.Sequential) (earlier prefs : List Text) :
    (loaded.collectSorted arraylen array earlier prefs).Sequential := by
  induction prefs generalizing array earlier with
  | nil => exact sequential
  | cons pref prefs ih =>
    rw [collectSorted_cons short]
    split
    · exact ih short sequential _
    · split
      next => exact push_sequential sequential _
      next room => exact ih (by rw [push_size]; omega) (push_sequential sequential _) _

theorem collectSorted_size (short : array.cells.size ≤ arraylen) (earlier prefs : List Text) :
    (loaded.collectSorted arraylen array earlier prefs).cells.size ≤ arraylen ↔
      array.cells.size + (loaded.choices earlier prefs).length ≤ arraylen := by
  induction prefs generalizing array earlier with
  | nil => rfl
  | cons pref prefs ih =>
    rw [collectSorted_cons short, choices, length_append]
    cases chosen : loaded.choice earlier pref with
    | none =>
      rw [Option.toList_none, length_nil, Nat.zero_add]
      exact ih short _
    | some imp =>
      rw [Option.toList_some, length_singleton]
      dsimp only
      split
      · rw [push_size]
        omega
      · rw [ih (by rw [push_size]; omega), push_size]
        omega

end Bounds

/-- **Where the lists of codecs stay inside the array**, and what sorting does to every array. -/
theorem codec_lists_iff (loaded : LoadedCodecs) (arraylen : Nat) (prefs : List Text) :
    ((loaded.getCodecs arraylen).InBounds arraylen ↔ loaded.codecs.length ≤ arraylen) ∧
      ((loaded.getCodecsSorted arraylen prefs).InBounds arraylen ↔
        (loaded.choices [] prefs).length ≤ arraylen) ∧
      ∀ array, (sortCodecs array).cells.Perm array.cells ∧
        (sortCodecs array).cells[0]? = array.cells[0]? := by
  have empty : CodecArray.empty.Sequential := rfl
  have short : CodecArray.empty.cells.size ≤ arraylen := Nat.zero_le _
  refine ⟨?_, ?_, fun array => ⟨(sortCodecs_spec array).perm, (sortCodecs_spec array).first⟩⟩
  · rw [getCodecs, sortCodecs_inBounds (collect_sequential empty _), collect_size short]
    show 0 + _ ≤ _ ↔ _
    rw [Nat.zero_add]
  · rw [getCodecsSorted, sortCodecs_inBounds (collectSorted_sequential short empty _ _),
      collectSorted_size short]
    show 0 + _ ≤ _ ↔ _
    rw [Nat.zero_add]

def narrowband (name : Text) : Text × CodecInterface :=
  (name, ⟨[⟨.audio, name, 8000, 8000, 64000, 20000⟩], cons_ne_nil _ _⟩)

/-- **One codec too many is written behind the array**: with two codecs loaded, or preferred, an
array of one place is written at the indices 0 and 1, and 2 is returned. -/
theorem codecs_overrun :
    let loaded : LoadedCodecs := ⟨[narrowband "PCMU", narrowband "PCMA"], []⟩
    (loaded.getCodecs 1).writes = [0, 1] ∧ (loaded.getCodecs 1).cells.size = 2 ∧
      (loaded.getCodecsSorted 1 ["PCMU", "PCMA"]).writes = [0, 1] ∧
      (loaded.getCodecsSorted 1 ["PCMU", "PCMA"]).cells.size = 2 := by
  decide

end FreeSwitch
