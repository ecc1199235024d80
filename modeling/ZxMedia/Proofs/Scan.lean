import Mathlib
import ZxMedia.Scan

/-!
# What scanners read

A scanner reads a value from some octets when it takes exactly these octets off the
front of whatever they begin, and answers with the value. The lemmas below follow the
ways in which scanners are put together, so that a layout is read field by field: each
field by its own lemma, and the whole by `Reads.bind` and `Reads.last`.
-/

namespace ZxMedia.Scan

open LittleEndian (capacity decode encode)

variable {α β : Type}

/-- The scanner takes exactly these octets for the value, whatever follows them. -/
def Reads (scan : Scan α) (octets : List UInt8) (value : α) : Prop :=
  ∀ rest, scan (octets ++ rest) = .ok (value, rest)

/-- The scanner takes all of these octets for the value. -/
def Fills (scan : Scan α) (octets : List UInt8) (value : α) : Prop :=
  scan octets = .ok (value, [])

/-- Octets that begin with their size, in a field of `width` octets. -/
def Spelled (width : Nat) (octets : List UInt8) : Prop :=
  ∃ data, data.length < capacity width ∧ octets = encode width data.length ++ data

namespace Reads

theorem fills {scan : Scan α} {octets : List UInt8} {value : α}
    (reads : scan.Reads octets value) :
    scan.Fills octets value := by
  have answer := reads []
  rwa [List.append_nil] at answer

theorem of_eq {scan : Scan α} {octets other : List UInt8} {value : α}
    (reads : scan.Reads octets value) (same : other = octets) : scan.Reads other value :=
  same ▸ reads

theorem pure (value : α) : Scan.Reads (pure value) [] value :=
  fun _ => rfl

theorem bind {first : Scan α} {next : α → Scan β} {front back : List UInt8} {value : α}
    {answer : β} (readsFirst : first.Reads front value)
    (readsNext : (next value).Reads back answer) :
    (first >>= next).Reads (front ++ back) answer := by
  intro rest
  -- `andThen` is what `>>=` means for scanners, but only up to unfolding the instance.
  change andThen first next (front ++ back ++ rest) = _
  rw [List.append_assoc]
  simp only [andThen, readsFirst (back ++ rest), readsNext rest]

theorem last {scan : Scan α} {octets : List UInt8} {value : α}
    (reads : scan.Reads octets value)
    (build : α → β) :
    (scan >>= fun field => Pure.pure (build field)).Reads octets (build value) := by
  rw [← List.append_nil octets]
  exact reads.bind (pure (build value))

theorem within {scan : Scan α} {octets : List UInt8} {value : α} (name : String)
    (reads : scan.Reads octets value) : (scan.within name).Reads octets value := by
  intro rest
  simp only [Scan.within, reads rest]

theorem ensuring {scan : Scan α} {octets : List UInt8} {value : α} (name : String)
    {allowed : α → Bool} (reads : scan.Reads octets value)
    (holds : allowed value = true) :
    (scan.ensuring name allowed).Reads octets value := by
  intro rest
  simp only [Scan.ensuring, reads rest, holds, if_true]

/-! ### Fields -/

theorem take (octets : Octets) : (Scan.take octets.size).Reads octets.toList octets := by
  intro rest
  have split := split?_append octets.toList rest
  rw [Array.length_toList] at split
  simp [Scan.take, splitArray?_eq, split]

theorem number {width size : Nat} (fits : size < capacity width) :
    (Scan.number width).Reads (encode width size) size := by
  intro rest
  have split := split?_append (encode width size) rest
  rw [LittleEndian.length_encode] at split
  simp only [Scan.number, split, LittleEndian.decode_encode fits]

theorem byte (octet : UInt8) : Scan.byte.Reads [octet] octet :=
  fun _ => rfl

theorem word (value : UInt16) : Scan.word.Reads (encode 2 value.toNat) value := by
  have fits : value.toNat < capacity 2 := value.toNat_lt
  have reads := (number fits).last UInt16.ofNat
  rwa [UInt16.ofNat_toNat] at reads

theorem offset (value : Int16) :
    Scan.offset.Reads (encode 2 value.toUInt16.toNat) value := by
  have reads := (word value.toUInt16).last UInt16.toInt16
  rwa [Int16.toInt16_toUInt16] at reads

theorem tag (expected : List UInt8) : (Scan.tag expected).Reads expected () := by
  intro rest
  simp only [Scan.tag, split?_append, if_true]

theorem sized {width : Nat} {data : Octets} (fits : data.size < capacity width) :
    (Scan.sized width).Reads (encode width data.size ++ data.toList) data :=
  (number fits).bind (take data)

/-- A size is kept with the octets that it counts. -/
theorem spelling {width : Nat} {octets : Octets} (spelled : Spelled width octets.toList) :
    (Scan.spelling width).Reads octets.toList octets := by
  obtain ⟨data, fits, same⟩ := spelled
  have whole : octets = (encode width data.length).toArray ++ data.toArray := by
    apply Array.toList_inj.mp
    simp [same]
  have readsSize : (Scan.take width).Reads (encode width data.length)
      (encode width data.length).toArray := by
    have reads := take (encode width data.length).toArray
    rwa [List.size_toArray, LittleEndian.length_encode] at reads
  have readsData :
      (Scan.take (decode (encode width data.length))).Reads data data.toArray := by
    rw [LittleEndian.decode_encode fits]
    exact take data.toArray
  rw [same, whole]
  exact readsSize.bind (readsData.last _)

theorem inside {width : Nat} {scan : Scan α} {body : List UInt8} {value : α}
    (fits : body.length < capacity width) (reads : scan.Reads body value) :
    (Scan.inside width scan).Reads (encode width body.length ++ body) value := by
  apply (number fits).bind
  intro rest
  have whole : scan body = .ok (value, []) := reads.fills
  simp only [split?_append, whole]

/-! ### Lists -/

theorem itemsFrom {item : Scan α} {pieces : List (List UInt8)} {values : List α}
    (each : List.Forall₂ item.Reads pieces values) (start rest : List UInt8)
    (before : Array α) :
    Scan.itemsFrom item start values.length (pieces.flatten ++ rest) before =
      .ok (before ++ values, rest) := by
  induction each generalizing before with
  | nil => simp [Scan.itemsFrom]
  | @cons piece value pieces values reads each ih =>
      simp only [List.length_cons, Scan.itemsFrom, List.flatten_cons, List.append_assoc,
        reads (pieces.flatten ++ rest), ih (before.push value)]
      simp

theorem items {item : Scan α} {pieces : List (List UInt8)} {values : List α}
    (each : List.Forall₂ item.Reads pieces values) :
    (Scan.items values.length item).Reads pieces.flatten values.toArray := by
  intro rest
  simp [Scan.items, itemsFrom each]

/-- Items with a layout of their own each. -/
theorem itemsOf {item : Scan α} (values : Array α) {layout : α → List UInt8}
    (each : ∀ value, item.Reads (layout value) value) :
    (Scan.items values.size item).Reads (values.toList.flatMap layout) values := by
  have every : List.Forall₂ item.Reads (values.toList.map layout) values.toList := by
    rw [List.forall₂_map_left_iff, List.forall₂_same]
    intro value _
    exact each value
  exact items every

end Reads

/-! ## Whole bodies -/

namespace Fills

theorem of_eq {scan : Scan α} {octets other : List UInt8} {value : α}
    (fills : scan.Fills octets value) (same : other = octets) : scan.Fills other value :=
  same ▸ fills

theorem rest (octets : Octets) : Scan.rest.Fills octets.toList octets := rfl

theorem bind {first : Scan α} {next : α → Scan β} {front back : List UInt8} {value : α}
    {answer : β} (readsFirst : first.Reads front value)
    (fillsNext : (next value).Fills back answer) :
    (first >>= next).Fills (front ++ back) answer := by
  have answered : next value back = .ok (answer, []) := fillsNext
  change andThen first next (front ++ back) = _
  simp only [andThen, readsFirst back, answered]

theorem last {scan : Scan α} {octets : List UInt8} {value : α}
    (fills : scan.Fills octets value)
    (build : α → β) :
    (scan >>= fun field => pure (build field)).Fills octets (build value) := by
  have answered : scan octets = .ok (value, []) := fills
  change andThen scan (fun field => pure (build field)) octets = _
  simp only [andThen, answered]
  rfl

end Fills

/-! ## Answers -/

theorem bind_answer {first : Scan α} {next : α → Scan β} {ahead rest : List UInt8}
    {answer : β}
    (answered : (first >>= next) ahead = .ok (answer, rest)) :
    ∃ value middle, first ahead = .ok (value, middle) ∧
      next value middle = .ok (answer, rest) := by
  change andThen first next ahead = _ at answered
  unfold andThen at answered
  split at answered
  next => cases answered
  next value middle taken =>
    split at answered
    next => cases answered
    next later =>
      cases answered
      exact ⟨value, middle, taken, later⟩

theorem within_answer {scan : Scan α} {name : String} {ahead : List UInt8}
    {answer : α × List UInt8} (answered : scan.within name ahead = .ok answer) :
    scan ahead = .ok answer := by
  unfold within at answered
  split at answered
  next => cases answered
  next taken =>
    cases answered
    exact taken

theorem split?_some {count : Nat} {ahead taken rest : List UInt8}
    (split : split? count ahead = some (taken, rest)) :
    taken.length = count ∧ ahead = taken ++ rest := by
  rw [split?_eq] at split
  split at split
  next enough =>
    cases split
    exact ⟨List.length_take_of_le enough, (List.take_append_drop count ahead).symm⟩
  next => cases split

theorem take_answer {count : Nat} {ahead rest : List UInt8} {value : Octets}
    (answered : take count ahead = .ok (value, rest)) :
    value.size = count ∧ ahead = value.toList ++ rest := by
  simp only [take, splitArray?_eq] at answered
  cases split : split? count ahead with
  | none =>
      rw [split] at answered
      cases answered
  | some halves =>
      obtain ⟨size, same⟩ := split?_some split
      rw [split] at answered
      simp only [Option.map_some, Except.ok.injEq, Prod.mk.injEq] at answered
      obtain ⟨rfl, rfl⟩ := answered
      exact ⟨by simpa using size, by simpa using same⟩

theorem number_answer {width value : Nat} {ahead rest : List UInt8}
    (answered : number width ahead = .ok (value, rest)) :
    value < capacity width ∧ ahead = encode width value ++ rest := by
  unfold number at answered
  split at answered
  next taken left split =>
    cases answered
    obtain ⟨size, same⟩ := split?_some split
    have fits := LittleEndian.decode_lt taken
    have whole := LittleEndian.encode_decode taken
    rw [size] at fits whole
    exact ⟨fits, whole.symm ▸ same⟩
  next => cases answered

theorem ensuring_answer {scan : Scan α} {name : String} {allowed : α → Bool}
    {ahead rest : List UInt8} {value : α}
    (answered : scan.ensuring name allowed ahead = .ok (value, rest)) :
    scan ahead = .ok (value, rest) ∧ allowed value = true := by
  unfold ensuring at answered
  split at answered
  next => cases answered
  next taken =>
    split at answered
    next holds =>
      cases answered
      exact ⟨taken, holds⟩
    next => cases answered

theorem byte_answer {ahead rest : List UInt8} {octet : UInt8}
    (answered : byte ahead = .ok (octet, rest)) : ahead = octet :: rest := by
  unfold byte at answered
  split at answered
  next =>
    cases answered
    rfl
  next => cases answered

theorem tag_answer {expected ahead rest : List UInt8}
    (answered : tag expected ahead = .ok ((), rest)) : ahead = expected ++ rest := by
  unfold tag at answered
  split at answered
  next split =>
    split at answered
    next same =>
      cases answered
      rw [← same]
      exact (split?_some split).2
    next => cases answered
  next => cases answered

theorem sized_answer {width : Nat} {ahead rest : List UInt8} {data : Octets}
    (answered : sized width ahead = .ok (data, rest)) :
    data.size < capacity width ∧ ahead.length = width + data.size + rest.length := by
  obtain ⟨size, middle, counted, taken⟩ := bind_answer answered
  obtain ⟨fits, rfl⟩ := number_answer counted
  obtain ⟨rfl, rfl⟩ := take_answer taken
  refine ⟨fits, ?_⟩
  rw [List.length_append, List.length_append, LittleEndian.length_encode,
    Array.length_toList, Nat.add_assoc]

theorem inside_answer {width : Nat} {scan : Scan α} {ahead rest : List UInt8} {value : α}
    (answered : inside width scan ahead = .ok (value, rest)) :
    ∃ body left, body.length < capacity width ∧ scan body = .ok (value, left) := by
  obtain ⟨size, middle, counted, taken⟩ := bind_answer answered
  split at taken
  next => cases taken
  next body others split =>
    split at taken
    next => cases taken
    next left inner =>
      cases taken
      obtain ⟨rfl, -⟩ := split?_some split
      exact ⟨body, left, (number_answer counted).1, inner⟩

/-! ## What holds of every answer -/

/-- Every value that the scanner takes satisfies the condition. -/
def Ensures (scan : Scan α) (holds : α → Prop) : Prop :=
  ∀ ahead value rest, scan ahead = .ok (value, rest) → holds value

namespace Ensures

theorem pure {value : α} {holds : α → Prop} (given : holds value) :
    Scan.Ensures (pure value) holds := by
  intro ahead _ _ answered
  cases answered
  exact given

/-- What comes first may tell something about what comes then. -/
theorem bind {first : Scan α} {next : α → Scan β} {told : α → Prop} {holds : β → Prop}
    (tells : first.Ensures told)
    (later : ∀ value, told value → (next value).Ensures holds) :
    (first >>= next).Ensures holds := by
  intro ahead answer rest answered
  obtain ⟨value, middle, taken, rest⟩ := bind_answer answered
  exact later value (tells _ _ _ taken) _ _ _ rest

theorem behind {first : Scan α} {next : α → Scan β} {holds : β → Prop}
    (later : ∀ value, (next value).Ensures holds) : (first >>= next).Ensures holds :=
  @bind _ _ first next (fun _ => True) holds (fun _ _ _ _ => trivial) fun value _ => later value

theorem within {scan : Scan α} {holds : α → Prop} (name : String)
    (ensures : scan.Ensures holds) :
    (scan.within name).Ensures holds :=
  fun _ _ _ answered => ensures _ _ _ (within_answer answered)

theorem sized (width : Nat) :
    (Scan.sized width).Ensures fun data => data.size < capacity width :=
  fun _ _ _ answered => (sized_answer answered).1

theorem number (width : Nat) : (Scan.number width).Ensures (· < capacity width) :=
  fun _ _ _ answered => (number_answer answered).1

theorem take (count : Nat) :
    (Scan.take count).Ensures fun octets => octets.size = count :=
  fun _ _ _ answered => (take_answer answered).1

/-- Octets that are taken with their size begin with it. -/
theorem spelling (width : Nat) :
    (Scan.spelling width).Ensures fun octets => Spelled width octets.toList := by
  refine (take width).bind ?_
  rintro size rfl
  refine (take (decode size.toList)).bind ?_
  intro data whole
  refine .pure ⟨data.toList, ?_, ?_⟩
  · rw [Array.length_toList, whole, ← Array.length_toList]
    exact LittleEndian.decode_lt size.toList
  · rw [Array.toList_append, Array.length_toList, whole, ← Array.length_toList,
      LittleEndian.encode_decode]

end Ensures

/-! ## Scanners that look no further than they take -/

/-- Whatever the scanner takes, it takes in front of any other octets too. Such a
scanner is cut off neither by what follows a value nor by the end of the octets behind
it. -/
def Exact (scan : Scan α) : Prop :=
  ∀ ahead value rest, scan ahead = .ok (value, rest) →
    ∃ taken, ahead = taken ++ rest ∧ scan.Reads taken value

namespace Exact

theorem pure (value : α) : Scan.Exact (pure value) := by
  intro ahead _ _ answered
  cases answered
  exact ⟨[], rfl, Reads.pure value⟩

theorem fail (cause : Cause) : Scan.Exact (Scan.fail cause : Scan α) := by
  intro ahead value rest answered
  cases answered

theorem bind {first : Scan α} {next : α → Scan β} (exactFirst : first.Exact)
    (exactNext : ∀ value, (next value).Exact) : (first >>= next).Exact := by
  intro ahead answer rest answered
  obtain ⟨value, middle, taken, later⟩ := bind_answer answered
  obtain ⟨front, rfl, readsFirst⟩ := exactFirst _ _ _ taken
  obtain ⟨back, rfl, readsNext⟩ := exactNext value _ _ _ later
  exact ⟨front ++ back, (List.append_assoc ..).symm, readsFirst.bind readsNext⟩

theorem last {scan : Scan α} (exact : scan.Exact) (build : α → β) :
    (scan >>= fun field => Pure.pure (build field)).Exact :=
  exact.bind fun field => pure (build field)

theorem within {scan : Scan α} (name : String) (exact : scan.Exact) :
    (scan.within name).Exact := by
  intro ahead value rest answered
  obtain ⟨front, same, reads⟩ := exact _ _ _ (within_answer answered)
  exact ⟨front, same, reads.within name⟩

/-! ### Fields -/

theorem take (count : Nat) : (Scan.take count).Exact := by
  intro ahead value rest answered
  obtain ⟨rfl, same⟩ := take_answer answered
  exact ⟨value.toList, same, Reads.take value⟩

theorem number (width : Nat) : (Scan.number width).Exact := by
  intro ahead value rest answered
  obtain ⟨fits, same⟩ := number_answer answered
  exact ⟨encode width value, same, Reads.number fits⟩

theorem byte : Scan.byte.Exact := by
  intro ahead value rest answered
  exact ⟨[value], byte_answer answered, Reads.byte value⟩

theorem word : Scan.word.Exact :=
  (number 2).last UInt16.ofNat

theorem offset : Scan.offset.Exact :=
  word.last UInt16.toInt16

theorem sized (width : Nat) : (Scan.sized width).Exact :=
  (number width).bind take

theorem spelling (width : Nat) : (Scan.spelling width).Exact :=
  (take width).bind fun _ => (take _).last _

/-- Inside a body of known size a scanner may look at anything. -/
theorem inside (width : Nat) (scan : Scan α) : (Scan.inside width scan).Exact := by
  apply (number width).bind
  intro size ahead value rest answered
  dsimp only at answered
  split at answered
  next => cases answered
  next body left split =>
    split at answered
    next => cases answered
    next inner =>
      cases answered
      obtain ⟨length, same⟩ := split?_some split
      refine ⟨body, same, ?_⟩
      intro other
      have again := split?_append body other
      rw [length] at again
      simp only [again, inner]

/-! ### Lists -/

/-- Items that were taken are pieces of what was ahead. -/
theorem itemsFrom {item : Scan α} (exact : item.Exact) {start ahead rest : List UInt8}
    {count : Nat}
    {before values : Array α}
    (answered : Scan.itemsFrom item start count ahead before = .ok (values, rest)) :
    ∃ pieces taken, List.Forall₂ item.Reads pieces taken ∧ taken.length = count ∧
      values = before ++ taken ∧ ahead = pieces.flatten ++ rest := by
  induction count generalizing ahead before with
  | zero =>
      cases answered
      exact ⟨[], [], .nil, rfl, by simp, rfl⟩
  | succ count ih =>
      unfold Scan.itemsFrom at answered
      split at answered
      next => cases answered
      next value left first =>
        obtain ⟨piece, rfl, reads⟩ := exact _ _ _ first
        obtain ⟨pieces, taken, each, length, rfl, rfl⟩ := ih answered
        exact ⟨piece :: pieces, value :: taken, .cons reads each,
          by simp [length], by simp, by simp⟩

theorem items (count : Nat) {item : Scan α} (exact : item.Exact) :
    (Scan.items count item).Exact := by
  intro ahead values rest answered
  obtain ⟨pieces, taken, each, rfl, rfl, same⟩ := exact.itemsFrom answered
  exact ⟨pieces.flatten, same, by simpa using Reads.items each⟩

end Exact

/-! ## How much is taken -/

/-- Every value that the scanner takes satisfies the condition and tells how many octets
it took. -/
def Takes (scan : Scan α) (extent : α → Nat) (holds : α → Prop) : Prop :=
  ∀ ahead value rest, scan ahead = .ok (value, rest) →
    holds value ∧ ahead.length = extent value + rest.length

namespace Takes

variable {item : Scan α} {extent : α → Nat} {holds : α → Prop}

theorem ensures (takes : item.Takes extent holds) : item.Ensures holds :=
  fun _ _ _ answered => (takes _ _ _ answered).1

theorem map (takes : item.Takes extent holds) (build : α → β) {extent' : β → Nat}
    {holds' : β → Prop} (same : ∀ value, extent' (build value) = extent value)
    (kept : ∀ value, holds value → holds' (build value)) :
    (item >>= fun value => pure (build value)).Takes extent' holds' := by
  intro ahead _ rest answered
  obtain ⟨value, middle, taken, built⟩ := bind_answer answered
  cases built
  obtain ⟨told, length⟩ := takes _ _ _ taken
  exact ⟨kept value told, by rw [same, length]⟩

/-- A field of a fixed size in front of what tells its own. -/
theorem behind {first : Scan β} {next : β → Scan α} {width : Nat}
    (front : first.Takes (fun _ => width) fun _ => True)
    (takes : ∀ value, (next value).Takes extent holds) :
    (first >>= next).Takes (fun answer => width + extent answer) holds := by
  intro ahead answer rest answered
  obtain ⟨value, middle, taken, later⟩ := bind_answer answered
  obtain ⟨told, length⟩ := takes value _ _ _ later
  refine ⟨told, ?_⟩
  rw [(front _ _ _ taken).2, length, Nat.add_assoc]

/-! ### Fields -/

theorem byte : Scan.byte.Takes (fun _ => 1) fun _ => True := by
  intro ahead octet rest answered
  rw [byte_answer answered, List.length_cons, Nat.add_comm]
  exact ⟨trivial, rfl⟩

theorem number (width : Nat) :
    (Scan.number width).Takes (fun _ => width) (· < capacity width) := by
  intro ahead value rest answered
  obtain ⟨fits, rfl⟩ := number_answer answered
  rw [List.length_append, LittleEndian.length_encode]
  exact ⟨fits, rfl⟩

theorem word : Scan.word.Takes (fun _ => 2) fun _ => True :=
  (number 2).map UInt16.ofNat (fun _ => rfl) fun _ _ => trivial

theorem offset : Scan.offset.Takes (fun _ => 2) fun _ => True :=
  word.map UInt16.toInt16 (fun _ => rfl) fun _ _ => trivial

theorem sized (width : Nat) :
    (Scan.sized width).Takes (fun data => width + data.size) fun data =>
      data.size < capacity width :=
  fun _ _ _ answered => sized_answer answered

/-! ### Lists -/

theorem itemsFrom (takes : item.Takes extent holds) {start ahead rest : List UInt8}
    {count : Nat}
    {before values : Array α}
    (answered : Scan.itemsFrom item start count ahead before = .ok (values, rest)) :
    ∃ taken : List α, values = before ++ taken ∧ taken.length = count ∧
      (∀ value ∈ taken, holds value) ∧
      ahead.length = (taken.map extent).sum + rest.length := by
  induction count generalizing ahead before with
  | zero =>
      cases answered
      exact ⟨[], by simp, rfl, List.forall_mem_nil _, by simp⟩
  | succ count ih =>
      unfold Scan.itemsFrom at answered
      split at answered
      next => cases answered
      next value left first =>
        obtain ⟨allowed, length⟩ := takes _ _ _ first
        obtain ⟨taken, rfl, rfl, others, more⟩ := ih answered
        refine ⟨value :: taken, by simp, rfl,
          List.forall_mem_cons.mpr ⟨allowed, others⟩, ?_⟩
        rw [List.map_cons, List.sum_cons, length, more, Nat.add_assoc]

theorem items (takes : item.Takes extent holds) (count : Nat) :
    (Scan.items count item).Takes (fun values => (values.toList.map extent).sum)
      fun values => values.size = count ∧ ∀ value ∈ values, holds value := by
  intro ahead values rest answered
  obtain ⟨taken, same, rfl, each, length⟩ := takes.itemsFrom answered
  obtain rfl : values = taken.toArray := by simpa using same
  refine ⟨⟨List.size_toArray, ?_⟩, length⟩
  simpa using each

/-- A counted list inside of a body of known size has a number of items and a size that
fit. -/
theorem list (takes : item.Takes extent holds) (width countWidth : Nat) :
    (Scan.inside width do Scan.items (← Scan.number countWidth) item).Ensures fun values =>
      values.size < capacity countWidth ∧ (∀ value ∈ values, holds value) ∧
        countWidth + (values.toList.map extent).sum < capacity width := by
  intro ahead values rest answered
  obtain ⟨body, left, fits, inner⟩ := inside_answer answered
  obtain ⟨count, middle, counted, listed⟩ := bind_answer inner
  obtain ⟨few, rfl⟩ := number_answer counted
  obtain ⟨⟨rfl, each⟩, length⟩ := takes.items count _ _ _ listed
  dsimp only at length
  rw [List.length_append, LittleEndian.length_encode, length] at fits
  exact ⟨few, each, by omega⟩

end Takes

end ZxMedia.Scan
