/-
How the header block of a raw mail is cut out of a download (`_raw_header_block` and `download_raw_headers` of
`src/ingress.py`): the stream is read in pieces of whatever size the connection gives, until a blank line has arrived or
the bound is reached.

- `Response`: what is left of a stream, and how much each read of it gives.
- `rawHeaderBlock`: the loop. Each turn takes at least one byte and never more than the bound leaves.
- `raw_header_block_framed`: the result is the bytes before the first blank line when that starts within the bound, an
  error otherwise, however the stream is cut, and no more than the bound and five bytes are taken.
- `downloadBlock`: the download around it. `download_range`: what the `Range` field asks for is enough to tell.

A read that raises, or that gives something else than bytes, ends the download with an error of its own and is left out.
-/
import Rally.Core.Framing

namespace Rally.Ingress

open Framing

/-! ## Model -/

def MAX_RAW_HEADER_BYTES : ℕ := 64 * 1024
def RAW_READ_CHUNK_BYTES : ℕ := 4096

/-- a raw-message failure, and whether another poll may fix it -/
structure RawMessageError where
  message : String
  retryable : Bool
deriving DecidableEq, Repr

def RawMessageError.missing : RawMessageError :=
  ⟨"raw email header block is missing or exceeds " ++ toString MAX_RAW_HEADER_BYTES ++ " bytes", false⟩

/-- a stream that is being read: the bytes to come, and how many each of the next reads would give -/
structure Response where
  rest : List UInt8
  sizes : ℕ → ℕ

/-- how much `read(n)` gives: at least one byte where there is one, at most `n` -/
def Response.gives (r : Response) (n : ℕ) : ℕ := min n (max 1 (r.sizes 0))

/-- `response.read(n)`: empty only at the end -/
def Response.read (r : Response) (n : ℕ) : List UInt8 × Response :=
  (r.rest.take (r.gives n), { rest := r.rest.drop (r.gives n), sizes := fun i => r.sizes (i + 1) })

def crlfcrlf : List UInt8 := [13, 10, 13, 10]
def lflf : List UInt8 := [10, 10]

/-- what a header block ends at -/
def endings : List (List UInt8) := [crlfcrlf, lflf]

/-- how much the loop asks for next -/
def nextRead (data : List UInt8) : ℕ := min RAW_READ_CHUNK_BYTES (MAX_RAW_HEADER_BYTES + 5 - data.length)

/-- the loop of `_raw_header_block`, with the bytes it has so far -/
def readHeaderBlock (data : List UInt8) (response : Response) : Except RawMessageError (List UInt8) × Response :=
  if data.length ≤ MAX_RAW_HEADER_BYTES + 4 then
    let (chunk, left) := response.read (nextRead data)
    if chunk = [] then (.error .missing, left)
    else
      match first endings (data ++ chunk) with
      | some stop =>
        if MAX_RAW_HEADER_BYTES < stop then (.error .missing, left) else (.ok ((data ++ chunk).take stop), left)
      | none => readHeaderBlock (data ++ chunk) left
  else (.error .missing, response)
termination_by MAX_RAW_HEADER_BYTES + 5 - data.length
decreasing_by
  have hpos : 0 < chunk.length := List.length_pos_of_ne_nil ‹_›
  simp only [List.length_append]
  omega

/-- `_raw_header_block` -/
def rawHeaderBlock (response : Response) : Except RawMessageError (List UInt8) × Response := readHeaderBlock [] response

/-- how opening the signed URL ended -/
inductive Opened where
  | httpError (code : ℕ)
  | failed (reason : String)
  | opened (status : Option ℕ) (response : Response)

/-- `status in (401, 403, 404, 408, 409, 425, 429) or 500 <= status < 600` -/
def retryableStatus (status : ℕ) : Bool := status ∈ [401, 403, 404, 408, 409, 425, 429] || (500 ≤ status && status < 600)

def RawMessageError.http (status : ℕ) : RawMessageError :=
  ⟨"Resend raw email download returned HTTP " ++ toString status, retryableStatus status⟩

/-- `download_raw_headers`, from the opened URL to the block that is parsed -/
def downloadBlock : Opened → Except RawMessageError (List UInt8)
  | .httpError code => .error (.http code)
  | .failed reason => .error ⟨"Resend raw email download failed: " ++ reason, true⟩
  | .opened (some status) response =>
    if status ∉ [200, 206] then .error (.http status) else (rawHeaderBlock response).1
  | .opened none response => (rawHeaderBlock response).1

/-- the last byte the `Range` field asks for: `bytes=0-%d` -/
def rangeLast : ℕ := MAX_RAW_HEADER_BYTES + 4

/-! ## Reads -/

theorem Response.read_rest (r : Response) (n : ℕ) : (r.read n).1 ++ (r.read n).2.rest = r.rest :=
  List.take_append_drop _ _

theorem Response.read_length_le (r : Response) (n : ℕ) : (r.read n).1.length ≤ n := by
  simp only [read, gives, List.length_take]
  omega

/-- a read that gives nothing is at the end -/
theorem Response.read_eq_nil {r : Response} {n : ℕ} (hn : 0 < n) (h : (r.read n).1 = []) : r.rest = [] := by
  have hlen : ((r.read n).1).length = 0 := by rw [h, List.length_nil]
  simp only [read, gives, List.length_take] at hlen
  exact List.eq_nil_of_length_eq_zero (by omega)

theorem nextRead_pos {data : List UInt8} (hroom : data.length ≤ MAX_RAW_HEADER_BYTES + 4) : 0 < nextRead data := by
  simp only [nextRead, RAW_READ_CHUNK_BYTES]
  omega

theorem nextRead_le (data : List UInt8) : nextRead data ≤ MAX_RAW_HEADER_BYTES + 5 - data.length := Nat.min_le_right _ _

/-! ## Framing -/

theorem endings_filled : Filled endings := by
  unfold Filled
  decide

/-- neither ending stands inside the other, so they cannot be found in the wrong order -/
theorem endings_apart : Apart endings := by
  unfold Apart
  decide

theorem ending_length_le {p : List UInt8} (hp : p ∈ endings) : p.length ≤ 4 := by
  fin_cases hp <;> decide

/-- the header block a stream has: what stands before its first blank line, if that starts within the bound -/
def framed (raw : List UInt8) : Except RawMessageError (List UInt8) :=
  match first endings raw with
  | some stop => if stop ≤ MAX_RAW_HEADER_BYTES then .ok (raw.take stop) else .error .missing
  | none => .error .missing

theorem framed_none {raw : List UInt8} (h : first endings raw = none) : framed raw = .error .missing := by
  simp only [framed, h]

theorem framed_far {raw : List UInt8} {stop : ℕ} (h : first endings raw = some stop)
    (hfar : MAX_RAW_HEADER_BYTES < stop) : framed raw = .error .missing := by
  simp only [framed, h, if_neg (not_le.2 hfar)]

theorem framed_some {raw : List UInt8} {stop : ℕ} (h : first endings raw = some stop)
    (hnear : stop ≤ MAX_RAW_HEADER_BYTES) : framed raw = .ok (raw.take stop) := by
  simp only [framed, h, if_pos hnear]

/-- where a stream starts with the bound and five bytes and no ending is among them, there is no block -/
theorem framed_long {data : List UInt8} (hnone : first endings data = none)
    (hlen : data.length = MAX_RAW_HEADER_BYTES + 5) (rest : List UInt8) : framed (data ++ rest) = .error .missing := by
  cases h : first endings (data ++ rest) with
  | none => exact framed_none h
  | some stop =>
    by_cases hfar : MAX_RAW_HEADER_BYTES < stop
    · exact framed_far h hfar
    · have hearly : first endings ((data ++ rest).take data.length) = some stop := by
        refine first_take endings_filled h fun p hp => ?_
        have := ending_length_le hp
        omega
      rw [List.take_left, hnone] at hearly
      cases hearly

/-- **One read.** The bytes so far and the piece read stay within the bound, and what is left follows them. -/
theorem read_next {data chunk : List UInt8} {response left : Response} (hlen : data.length ≤ MAX_RAW_HEADER_BYTES + 5)
    (hread : response.read (nextRead data) = (chunk, left)) :
    chunk ++ left.rest = response.rest ∧ (data ++ chunk).length ≤ MAX_RAW_HEADER_BYTES + 5 := by
  have hleft := response.read_rest (nextRead data)
  have hshort := response.read_length_le (nextRead data)
  have hbound := nextRead_le data
  rw [hread] at hleft hshort
  refine ⟨hleft, ?_⟩
  simp only [List.length_append] at hshort ⊢
  omega

/-- **The loop.** From bytes without an ending it comes to the block of the whole stream, whatever the reads give, and
takes no byte past the bound and five. -/
theorem readHeaderBlock_framed (data : List UInt8) (response : Response) (hnone : first endings data = none)
    (hlen : data.length ≤ MAX_RAW_HEADER_BYTES + 5) :
    (readHeaderBlock data response).1 = framed (data ++ response.rest) ∧
      ∃ taken, taken ++ (readHeaderBlock data response).2.rest = response.rest ∧
        (data ++ taken).length ≤ MAX_RAW_HEADER_BYTES + 5 := by
  induction data, response using readHeaderBlock.induct with
  | case1 data response hroom left hread =>
    obtain ⟨hleft, hbound⟩ := read_next hlen hread
    have hrest : response.rest = [] := Response.read_eq_nil (nextRead_pos hroom) (congrArg Prod.fst hread)
    rw [readHeaderBlock, if_pos hroom, hread]
    refine ⟨?_, [], hleft, hbound⟩
    rw [hrest, List.append_nil, framed_none hnone]
    rfl
  | case2 data response hroom chunk left hread hsome stop hfound hfar =>
    obtain ⟨hleft, hbound⟩ := read_next hlen hread
    have hwhole := first_append endings_filled endings_apart hfound left.rest
    rw [List.append_assoc, hleft] at hwhole
    rw [readHeaderBlock, if_pos hroom, hread]
    simp only [if_neg hsome, hfound, if_pos hfar]
    exact ⟨(framed_far hwhole hfar).symm, chunk, hleft, hbound⟩
  | case3 data response hroom chunk left hread hsome stop hfound hnear =>
    obtain ⟨hleft, hbound⟩ := read_next hlen hread
    have hwhole := first_append endings_filled endings_apart hfound left.rest
    have hstop := ((first_eq_some endings_filled).1 hfound).1.le_length endings_filled
    have hblock := framed_some hwhole (not_lt.1 hnear)
    rw [List.take_append_of_le_length hstop, List.append_assoc, hleft] at hblock
    rw [readHeaderBlock, if_pos hroom, hread]
    simp only [if_neg hsome, hfound, if_neg hnear]
    exact ⟨hblock.symm, chunk, hleft, hbound⟩
  | case4 data response hroom chunk left hread hsome hfound ih =>
    obtain ⟨hleft, hbound⟩ := read_next hlen hread
    obtain ⟨hresult, taken, hrest, htaken⟩ := ih hfound hbound
    rw [readHeaderBlock, if_pos hroom, hread]
    simp only [if_neg hsome, hfound]
    refine ⟨?_, chunk ++ taken, ?_, ?_⟩
    · rw [hresult, List.append_assoc, hleft]
    · rw [List.append_assoc, hrest, hleft]
    · rwa [← List.append_assoc]
  | case5 data response hfull =>
    have hlong : data.length = MAX_RAW_HEADER_BYTES + 5 := by omega
    rw [readHeaderBlock, if_neg hfull]
    exact ⟨(framed_long hnone hlong _).symm, [], List.nil_append _, by simpa using hlen⟩

theorem rawHeaderBlock_framed (response : Response) : (rawHeaderBlock response).1 = framed response.rest :=
  (readHeaderBlock_framed [] response rfl (Nat.zero_le _)).1

theorem framed_eq_ok {raw block : List UInt8} :
    framed raw = .ok block ↔ ∃ stop ≤ MAX_RAW_HEADER_BYTES, FirstEnd endings raw stop ∧ block = raw.take stop := by
  cases h : first endings raw with
  | none =>
    have hno := (first_eq_none endings_filled).1 h
    simp only [framed_none h, reduceCtorEq, false_iff]
    rintro ⟨stop, -, hstop, -⟩
    exact hno stop hstop.1
  | some stop =>
    have hfirst := (first_eq_some endings_filled).1 h
    constructor
    · intro hok
      by_cases hfar : MAX_RAW_HEADER_BYTES < stop
      · rw [framed_far h hfar] at hok
        cases hok
      · rw [framed_some h (not_lt.1 hfar)] at hok
        exact ⟨stop, not_lt.1 hfar, hfirst, (Except.ok.inj hok).symm⟩
    · rintro ⟨stop', hnear, hfirst', rfl⟩
      obtain rfl := hfirst.unique hfirst'
      exact framed_some h hnear

theorem framed_eq_error {raw : List UInt8} :
    framed raw = .error .missing ↔ ¬ ∃ stop ≤ MAX_RAW_HEADER_BYTES, FirstEnd endings raw stop := by
  cases h : framed raw with
  | ok block =>
    obtain ⟨stop, hnear, hfirst, -⟩ := framed_eq_ok.1 h
    simp only [reduceCtorEq, false_iff, not_not]
    exact ⟨stop, hnear, hfirst⟩
  | error e =>
    have he : e = .missing := by
      unfold framed at h
      split at h
      · split at h <;> simp_all
      · simp_all
    simp only [he, true_iff]
    rintro ⟨stop, hnear, hfirst⟩
    rw [framed_eq_ok.2 ⟨stop, hnear, hfirst, rfl⟩] at h
    cases h

/-! ## Results -/

/-- a blank line starts at this byte: an end of line directly after an end of line, both written alike -/
def BlankLine (raw : List UInt8) (k : ℕ) : Prop := crlfcrlf <+: raw.drop k ∨ lflf <+: raw.drop k

/-- the first byte at which a blank line starts -/
def FirstBlankLine (raw : List UInt8) (k : ℕ) : Prop := BlankLine raw k ∧ ∀ j < k, ¬ BlankLine raw j

theorem ends_endings {raw : List UInt8} {k : ℕ} : Framing.Ends endings raw k ↔ BlankLine raw k := by
  simp [Framing.Ends, endings, BlankLine]

theorem firstEnd_endings {raw : List UInt8} {k : ℕ} : FirstEnd endings raw k ↔ FirstBlankLine raw k := by
  simp only [FirstEnd, FirstBlankLine, ends_endings]

/-- **Framing does not depend on the pieces.** For every stream and every way its reads cut it, the block is what stands
before the first blank line if that starts within the bound; if none does, the error is raised. The result is the same
for every other way, and at most the bound and five bytes are taken from the stream. -/
theorem raw_header_block_framed (raw : List UInt8) (sizes : ℕ → ℕ) :
    (∀ block, (rawHeaderBlock ⟨raw, sizes⟩).1 = .ok block ↔
      ∃ stop ≤ MAX_RAW_HEADER_BYTES, FirstBlankLine raw stop ∧ block = raw.take stop) ∧
    ((rawHeaderBlock ⟨raw, sizes⟩).1 = .error .missing ↔ ¬ ∃ stop ≤ MAX_RAW_HEADER_BYTES, FirstBlankLine raw stop) ∧
    (∀ others, (rawHeaderBlock ⟨raw, others⟩).1 = (rawHeaderBlock ⟨raw, sizes⟩).1) ∧
    ∃ taken, taken ++ (rawHeaderBlock ⟨raw, sizes⟩).2.rest = raw ∧ taken.length ≤ MAX_RAW_HEADER_BYTES + 5 := by
  refine ⟨fun block => ?_, ?_, fun others => ?_, ?_⟩
  · rw [rawHeaderBlock_framed, framed_eq_ok]
    simp only [firstEnd_endings]
  · rw [rawHeaderBlock_framed, framed_eq_error]
    simp only [firstEnd_endings]
  · rw [rawHeaderBlock_framed, rawHeaderBlock_framed]
  · exact (readHeaderBlock_framed [] ⟨raw, sizes⟩ rfl (Nat.zero_le _)).2

/-- a blank line that straddles two reads is found -/
example (sizes : ℕ → ℕ) : (rawHeaderBlock ⟨[65, 13, 10, 13, 10, 66], sizes⟩).1 = .ok [65] := by
  rw [rawHeaderBlock_framed]
  rfl

theorem framed_take (raw : List UInt8) : framed (raw.take (rangeLast + 1)) = framed raw := by
  by_cases hlong : rangeLast + 1 ≤ raw.length
  · cases h : first endings (raw.take (rangeLast + 1)) with
    | none =>
      have hlen : (raw.take (rangeLast + 1)).length = MAX_RAW_HEADER_BYTES + 5 := by
        rw [List.length_take_of_le hlong, rangeLast]
      have := framed_long h hlen (raw.drop (rangeLast + 1))
      rw [List.take_append_drop] at this
      rw [framed_none h, this]
    | some stop =>
      have hwhole := first_append endings_filled endings_apart h (raw.drop (rangeLast + 1))
      rw [List.take_append_drop] at hwhole
      by_cases hfar : MAX_RAW_HEADER_BYTES < stop
      · rw [framed_far h hfar, framed_far hwhole hfar]
      · rw [framed_some h (not_lt.1 hfar), framed_some hwhole (not_lt.1 hfar), List.take_take, rangeLast,
          Nat.min_eq_left (by omega)]
  · rw [List.take_of_length_le (by omega)]

/-- **The range asked for is enough.** A server that sends only the range, and one that ignores it, give one block. -/
theorem download_range (raw : List UInt8) (sizes others : ℕ → ℕ) :
    downloadBlock (.opened (some 206) ⟨raw.take (rangeLast + 1), sizes⟩) =
      downloadBlock (.opened (some 200) ⟨raw, others⟩) := by
  simp only [downloadBlock, rawHeaderBlock_framed, framed_take]
  rfl

end Rally.Ingress
