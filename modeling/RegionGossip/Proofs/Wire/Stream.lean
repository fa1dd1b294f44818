import RegionGossip.Proofs.Wire.Framing

/-!
# Frames written one after the other

A stream that bodies were written to is the row of the frames of those that were not refused. A
reader that gets any number of its first bytes finds every frame that lies within them, and then the
end of the stream; where the bytes are cut makes no difference to the bodies. Only an empty body
leads it astray: it can be written, but no frame has its length.
-/

namespace RegionGossip.Wire

/-- The bytes of some frames, one after the other. -/
def frames (bodies : List (List UInt8)) : List UInt8 := bodies.flatMap frame

/-- Whether a body is short enough to be written. -/
def isAccepted (body : List UInt8) : Bool := body.length ≤ maxFrameLength

/-- What a writer answers. -/
def writeAnswer (body : List UInt8) : Except MeshError Unit :=
  if isAccepted body then .ok () else .error (.encode (.frameTooLong body.length))

variable {bodies : List (List UInt8)} {bytes : List UInt8}

/-- A body that is too long leaves the stream as it is, and every other one adds its frame. -/
theorem putFrame_eq (stream body : List UInt8) :
    putFrame stream body =
      (if isAccepted body then stream ++ frame body else stream, writeAnswer body) := by
  rw [putFrame, writeFrame, writeAnswer]
  by_cases hlong : maxFrameLength < body.length
  · have hrefused : isAccepted body = false := by simpa [isAccepted] using hlong
    rw [if_pos hlong, hrefused]
    rfl
  · have haccepted : isAccepted body = true := by simpa [isAccepted] using hlong
    rw [if_neg hlong, haccepted]
    rfl

/-- A stream holds the frames of the bodies that were accepted, in order. -/
theorem putFrames_eq (stream : List UInt8) (bodies : List (List UInt8)) :
    putFrames stream bodies =
      (stream ++ frames (bodies.filter isAccepted), bodies.map writeAnswer) := by
  induction bodies generalizing stream with
  | nil => simp [putFrames, frames]
  | cons body rest ih =>
    rw [putFrames, putFrame_eq]
    simp only [ih]
    cases haccepted : isAccepted body <;> simp [frames, haccepted]

/-- A frame is four bytes longer than its body. -/
theorem length_frame (body : List UInt8) : (frame body).length = 4 + body.length := by
  rw [frame, List.length_append, length_bigEndian]

/-- There are at least as many bytes as frames. -/
theorem length_le_length_frames (bodies : List (List UInt8)) :
    bodies.length ≤ (frames bodies).length := by
  induction bodies with
  | nil => exact Nat.le_refl _
  | cons body rest ih =>
    have hbody := length_frame body
    rw [frames] at ih ⊢
    rw [List.flatMap_cons, List.length_append, List.length_cons]
    omega

/-- Whole frames are read one after the other. -/
theorem readFrames_frames (hbodies : ∀ body ∈ bodies, Framable body) (fuel : Nat)
    (tail : List UInt8) (done : List (List UInt8)) :
    readFrames (fuel + bodies.length) (frames bodies ++ tail) done =
      readFrames fuel tail (bodies.reverse ++ done) := by
  induction bodies generalizing done with
  | nil => rfl
  | cons body rest ih =>
    have hread := readFrame_frame (hbodies body List.mem_cons_self) (frames rest ++ tail) true
    have hfront : frames (body :: rest) ++ tail = frame body ++ (frames rest ++ tail) := by
      simp [frames]
    rw [List.length_cons, ← Nat.add_assoc, readFrames, hfront, hread]
    simp only
    rw [ih (fun other hother => hbodies other (List.mem_cons_of_mem _ hother))]
    simp

/-- Reading goes through the whole frames in front, and ends with what is found behind them. -/
theorem framesOf_frames (hbodies : ∀ body ∈ bodies, Framable body) {tail rest : List UInt8}
    {fault : MeshError} (htail : readFrame tail true = .failed fault rest) :
    framesOf (frames bodies ++ tail) = ⟨bodies, tail, fault, rest⟩ := by
  have hlength := length_le_length_frames bodies
  obtain ⟨spare, hspare⟩ : ∃ spare,
      (frames bodies ++ tail).length + 1 = spare + 1 + bodies.length :=
    ⟨(frames bodies ++ tail).length - bodies.length, by rw [List.length_append]; omega⟩
  rw [framesOf, hspare, readFrames_frames hbodies, readFrames, htail]
  simp

/-- The first bytes of a frame are not all of it. -/
theorem unfinished_take_frame {body : List UInt8} {count : Nat}
    (hbounded : body.length ≤ maxFrameLength) (hshort : count < (frame body).length) :
    Unfinished ((frame body).take count) := by
  rw [length_frame] at hshort
  rcases Nat.lt_or_ge count 4 with hword | hword
  · exact .length (Nat.lt_of_le_of_lt (List.length_take_le _ _) hword)
  · have hlimit : maxFrameLength < 2 ^ 31 := by decide
    have hvalue : signedWord (bigEndian 4 body.length) = body.length :=
      signedWord_bigEndian (by omega)
    have hwidth := length_bigEndian 4 body.length
    rw [frame, List.take_append, List.take_of_length_le (by omega), hwidth]
    refine .body hwidth ?_ ?_
    · rw [hvalue, List.length_take]
      omega
    · rw [hvalue]
      exact_mod_cast hbounded

/-- Wherever a row of frames is cut, there are whole frames in front and a part of one behind them.
Those in front are the frames that end before the cut. -/
theorem exists_cut (hbodies : ∀ body ∈ bodies, Framable body) (count : Nat) :
    ∃ whole part, (frames bodies).take count = frames (bodies.take whole) ++ part ∧
      Unfinished part ∧
      ∀ index < bodies.length,
        index < whole ↔ (frames (bodies.take (index + 1))).length ≤ count := by
  induction bodies generalizing count with
  | nil => exact ⟨0, [], by simp [frames], .length (by simp), by simp⟩
  | cons body rest ih =>
    have hfront : frames (body :: rest) = frame body ++ frames rest := by simp [frames]
    have hbody := hbodies body List.mem_cons_self
    rcases Nat.lt_or_ge count (frame body).length with hinside | hbehind
    · refine ⟨0, (frame body).take count, ?_, unfinished_take_frame hbody.bounded hinside,
        fun index _ => ⟨fun hindex => absurd hindex (Nat.not_lt_zero _), fun hends => ?_⟩⟩
      · rw [hfront, List.take_append_of_le_length (Nat.le_of_lt hinside)]
        rfl
      · -- every later frame ends behind the first one
        rw [List.take_succ_cons, frames, List.flatMap_cons, List.length_append] at hends
        omega
    · obtain ⟨whole, part, hcut, hpart, hwhole⟩ :=
        ih (fun other hother => hbodies other (List.mem_cons_of_mem _ hother))
          (count - (frame body).length)
      refine ⟨whole + 1, part, ?_, hpart, fun index hindex => ?_⟩
      · rw [hfront, List.take_append, List.take_of_length_le hbehind, hcut, List.take_succ_cons,
          frames, frames, List.flatMap_cons, List.append_assoc]
      · rw [List.take_succ_cons, frames, List.flatMap_cons, List.length_append]
        cases index with
        | zero => simpa using hbehind
        | succ index =>
          have hlater := hwhole index (by simpa using hindex)
          rw [frames] at hlater
          omega

/-- A frame without a body is refused as soon as it is met. -/
theorem readFrame_empty (tail : List UInt8) :
    readFrame (frame [] ++ tail) true = .failed (.outOfSync (.frameTooShort 0)) tail := by
  have hzero : signedWord (bigEndian 4 0) = 0 := by decide
  rw [frame, List.append_nil, List.length_nil]
  rw [readFrame_tooShort (length_bigEndian 4 0) (by rw [hzero]), hzero]

/-- Of the first bytes of a row of frames the whole frames are read, and then the stream ends. -/
theorem framesOf_take_frames (hbodies : ∀ body ∈ bodies, Framable body) (count : Nat) :
    ∃ whole part,
      framesOf ((frames bodies).take count) = ⟨bodies.take whole, part, .io .endOfStream, []⟩ ∧
      ∀ index < bodies.length,
        index < whole ↔ (frames (bodies.take (index + 1))).length ≤ count := by
  obtain ⟨whole, part, hcut, hpart, hwhole⟩ := exists_cut hbodies count
  have hfront : ∀ body ∈ bodies.take whole, Framable body :=
    fun body hbody => hbodies body (List.mem_of_mem_take hbody)
  refine ⟨whole, part, ?_, hwhole⟩
  rw [hcut, framesOf_frames hfront (readFrame_unfinished hpart true)]

/-- A row of frames is read to its end. -/
theorem framesOf_all (hbodies : ∀ body ∈ bodies, Framable body) :
    framesOf (frames bodies) = ⟨bodies, [], .io .endOfStream, []⟩ := by
  have hempty : Unfinished [] := .length (by simp)
  have hread := framesOf_frames hbodies (readFrame_unfinished hempty true)
  rwa [List.append_nil] at hread

/-- In front of the first frame without a body stand the frames of the bodies before it. -/
theorem exists_empty_frame (hempty : [] ∈ bodies) :
    ∃ rest, frames bodies = frames (bodies.takeWhile (· ≠ [])) ++ (frame [] ++ rest) := by
  induction bodies with
  | nil => exact absurd hempty List.not_mem_nil
  | cons body later ih =>
    cases body with
    | nil => exact ⟨frames later, by simp [frames]⟩
    | cons byte more =>
      have hlater : [] ∈ later := by simpa using hempty
      obtain ⟨rest, hrest⟩ := ih hlater
      rw [frames] at hrest
      exact ⟨rest, by simp [frames, hrest]⟩

/-- A row of frames is read up to the first one without a body. -/
theorem framesOf_of_empty_mem (hbounded : ∀ body ∈ bodies, body.length ≤ maxFrameLength)
    (hempty : [] ∈ bodies) :
    ∃ rest, framesOf (frames bodies) =
      ⟨bodies.takeWhile (· ≠ []), frame [] ++ rest, .outOfSync (.frameTooShort 0), rest⟩ := by
  obtain ⟨rest, hrest⟩ := exists_empty_frame hempty
  have hfront : ∀ body ∈ bodies.takeWhile (· ≠ []), Framable body := by
    intro body hbody
    have hnonempty : body ≠ [] := by simpa using List.all_eq_true.1 List.all_takeWhile body hbody
    have hmem : body ∈ bodies := (List.takeWhile_sublist _).subset hbody
    exact ⟨List.length_pos_iff.2 hnonempty, hbounded body hmem⟩
  exact ⟨rest, by rw [hrest, framesOf_frames hfront (readFrame_empty rest)]⟩

/-- A body is refused exactly when it is too long, and then leaves the stream as it is. If no
accepted body is empty, the first bytes of the stream, however many there are, give exactly the
accepted bodies whose frames end within them, and then the end of the stream; all of its bytes give
all of these bodies and leave nothing. Otherwise the bodies before the first empty one are read, and
the length of that one is refused. -/
theorem frames_survive_cuts (bodies : List (List UInt8)) :
    (∀ stream body, maxFrameLength < body.length →
      putFrame stream body = (stream, .error (.encode (.frameTooLong body.length)))) ∧
    (∀ stream body, body.length ≤ maxFrameLength →
      putFrame stream body = (stream ++ frame body, .ok ())) ∧
    putFrames [] bodies = (frames (bodies.filter isAccepted), bodies.map writeAnswer) ∧
    ([] ∉ bodies.filter isAccepted →
      (∀ count, ∃ whole part,
        framesOf ((putFrames [] bodies).1.take count) =
          ⟨(bodies.filter isAccepted).take whole, part, .io .endOfStream, []⟩ ∧
        ∀ index < (bodies.filter isAccepted).length,
          index < whole ↔
            (frames ((bodies.filter isAccepted).take (index + 1))).length ≤ count) ∧
      framesOf (putFrames [] bodies).1 =
        ⟨bodies.filter isAccepted, [], .io .endOfStream, []⟩) ∧
    ([] ∈ bodies.filter isAccepted →
      ∃ rest, framesOf (putFrames [] bodies).1 =
        ⟨(bodies.filter isAccepted).takeWhile (· ≠ []), frame [] ++ rest,
          .outOfSync (.frameTooShort 0), rest⟩) := by
  have hstream := putFrames_eq [] bodies
  rw [List.nil_append] at hstream
  have hbounded : ∀ body ∈ bodies.filter isAccepted, body.length ≤ maxFrameLength :=
    fun body hbody => by simpa [isAccepted] using (List.mem_filter.1 hbody).2
  refine ⟨fun stream body hlong => ?_, fun stream body hshort => ?_, hstream, fun hnonempty => ?_,
    fun hempty => ?_⟩
  · have hrefused : isAccepted body = false := by simpa [isAccepted] using hlong
    rw [putFrame_eq, writeAnswer, hrefused]
    rfl
  · have haccepted : isAccepted body = true := by simpa [isAccepted] using hshort
    rw [putFrame_eq, writeAnswer, haccepted]
    rfl
  · have hbodies : ∀ body ∈ bodies.filter isAccepted, Framable body := fun body hbody =>
      ⟨List.length_pos_iff.2 fun hnil => hnonempty (hnil ▸ hbody), hbounded body hbody⟩
    rw [hstream]
    exact ⟨framesOf_take_frames hbodies, framesOf_all hbodies⟩
  · rw [hstream]
    exact framesOf_of_empty_mem hbounded hempty

/-- A cut within the second frame leaves the first one, and an empty body is as far as a reader
gets. -/
theorem cut_and_empty_frames :
    ([] ∉ [[7, 8], [9]].filter isAccepted ∧
      ∃ part, framesOf ((putFrames [] [[7, 8], [9]]).1.take 9) =
        ⟨[[7, 8]], part, .io .endOfStream, []⟩) ∧
    [] ∈ [[7], [], [8]].filter isAccepted ∧
      ∃ rest, framesOf (putFrames [] [[7], [], [8]]).1 =
        ⟨[[7]], frame [] ++ rest, .outOfSync (.frameTooShort 0), rest⟩ := by
  have hnonempty : [] ∉ [[7, 8], [9]].filter isAccepted := by decide
  have hempty : [] ∈ [[7], [], [8]].filter isAccepted := by decide
  refine ⟨⟨hnonempty, ?_⟩, hempty, (frames_survive_cuts [[7], [], [8]]).2.2.2.2 hempty⟩
  obtain ⟨whole, part, hread, hwhole⟩ :=
    ((frames_survive_cuts [[7, 8], [9]]).2.2.2.1 hnonempty).1 9
  have hfirst : 0 < whole := (hwhole 0 (by decide)).2 (by decide)
  have hsecond : ¬ 1 < whole := fun hlater => absurd ((hwhole 1 (by decide)).1 hlater) (by decide)
  obtain rfl : whole = 1 := by omega
  exact ⟨part, hread⟩

end RegionGossip.Wire
