import J1Server.Core.Packet

/-! # The read loop of a session

`AsyncHeaderRead` and `AsyncBodyRead` take turns. `async_read` completes when its
buffer is full, so TCP may split the stream anywhere. -/

namespace Core

/-- What leaves a handler that does not return. -/
inductive Raised
  /-- `std::length_error`, from `resize`. -/
  | lengthError
  /-- The table of handlers has no such entry. -/
  | outOfBounds
  | handler (what : String)
  deriving DecidableEq

inductive Phase
  | headerRead
  | bodyRead (header : PacketHeader)
  | closed
  | raised (e : Raised)
  deriving DecidableEq

/-- A session that reads. `buffer` is what the read in progress has so far, and `resized` lists the
sizes that `resize` was given. -/
structure ReadLoop (σ : Type) where
  phase : Phase := .headerRead
  buffer : List UInt8 := []
  resized : List Nat := []
  state : σ

/-- `HandlePacket`: it may change the state, or raise. -/
abbrev HandlePacket (σ : Type) := PacketHeader → List UInt8 → σ → Except Raised σ

def headerBufferSize : Nat := 4

def toSize (x : Int16) : Nat := (x.toInt % 2 ^ 64).toNat

def maxSize : Nat := 2 ^ 63 - 1

variable {σ : Type} (handle : HandlePacket σ)

def asyncHeaderRead (r : ReadLoop σ) : ReadLoop σ := { r with phase := .headerRead, buffer := [] }

def onBodyRead (header : PacketHeader) (r : ReadLoop σ) : ReadLoop σ :=
  match handle header r.buffer r.state with
  | .ok s => asyncHeaderRead { r with state := s }
  | .error e => { r with phase := .raised e }

/-- A read into an empty buffer completes at once. -/
def asyncBodyRead (header : PacketHeader) (r : ReadLoop σ) : ReadLoop σ :=
  let size := toSize header.length
  let r := { r with buffer := [], resized := r.resized ++ [size] }
  if maxSize < size then { r with phase := .raised .lengthError }
  else if size = 0 then onBodyRead handle header r
  else { r with phase := .bodyRead header }

def onHeaderRead (r : ReadLoop σ) : ReadLoop σ :=
  match parseHeader r.buffer 0 with
  | some (header, _) => asyncBodyRead handle header r
  | none => { r with phase := .closed }

def recvByte (r : ReadLoop σ) (b : UInt8) : ReadLoop σ :=
  let buffer := r.buffer ++ [b]
  match r.phase with
  | .headerRead =>
    if buffer.length < headerBufferSize then { r with buffer := buffer }
    else onHeaderRead handle { r with buffer := buffer }
  | .bodyRead header =>
    if buffer.length < toSize header.length then { r with buffer := buffer }
    else onBodyRead handle header { r with buffer := buffer }
  | .closed => r
  | .raised _ => r

def recv (r : ReadLoop σ) (bytes : List UInt8) : ReadLoop σ := bytes.foldl (recvByte handle) r

/-- What the network does to a session that reads. -/
inductive ReadEvent
  | segment (bytes : List UInt8)
  /-- The peer hung up, or the socket was closed. -/
  | error

def onEvent (r : ReadLoop σ) : ReadEvent → ReadLoop σ
  | .segment bytes => recv handle r bytes
  | .error =>
    match r.phase with
    | .raised _ => r
    | _ => { r with phase := .closed }

def receive (r : ReadLoop σ) (events : List ReadEvent) : ReadLoop σ := events.foldl (onEvent handle) r

/-! ## One frame -/

variable {handle} {r : ReadLoop σ} {header : PacketHeader}

@[simp] theorem recv_nil (r : ReadLoop σ) : recv handle r [] = r := rfl

@[simp] theorem recv_cons (r : ReadLoop σ) (b : UInt8) (bytes : List UInt8) :
    recv handle r (b :: bytes) = recv handle (recvByte handle r b) bytes := rfl

theorem recv_append (r : ReadLoop σ) (bytes bytes' : List UInt8) :
    recv handle r (bytes ++ bytes') = recv handle (recv handle r bytes) bytes' := List.foldl_append

theorem toSize_eq {x : Int16} (h : 0 ≤ x.toInt) : toSize x = x.toInt.toNat := by
  have := x.toInt_lt
  simp only [toSize]
  omega

theorem toSize_le (x : Int16) (h : 0 ≤ x.toInt) : toSize x ≤ 32767 := by
  have := x.toInt_lt
  rw [toSize_eq h]
  omega

/-- A negative length asks for more than a vector can hold. -/
theorem maxSize_lt_toSize_iff (x : Int16) : maxSize < toSize x ↔ x.toInt < 0 := by
  have := x.toInt_lt
  have := x.le_toInt
  simp only [maxSize, toSize]
  omega

theorem recv_header (hphase : r.phase = .headerRead) (hbuffer : r.buffer = []) (header : PacketHeader) :
    recv handle r header.bytes = asyncBodyRead handle header r := by
  obtain ⟨b₀, b₁, b₂, b₃, hbytes, hheader⟩ := headerOf_bytes header
  obtain ⟨phase, buffer, resized, state⟩ := r
  simp only at hphase hbuffer
  subst hphase hbuffer
  rw [hbytes, ← hheader]
  rfl

theorem recv_part (hphase : r.phase = .bodyRead header) {bytes : List UInt8}
    (hlen : r.buffer.length + bytes.length < toSize header.length) :
    recv handle r bytes = { r with buffer := r.buffer ++ bytes } := by
  induction bytes generalizing r with
  | nil => simp
  | cons b bytes ih =>
    simp only [List.length_cons] at hlen
    have hstep : recvByte handle r b = { r with buffer := r.buffer ++ [b] } := by
      have hshort : (r.buffer ++ [b]).length < toSize header.length := by
        simp only [List.length_append, List.length_singleton]
        omega
      simp only [recvByte, hphase, if_pos hshort]
    have hrest : (r.buffer ++ [b]).length + bytes.length < toSize header.length := by
      simp only [List.length_append, List.length_singleton]
      omega
    rw [recv_cons, hstep, ih (r := { r with buffer := r.buffer ++ [b] }) hphase hrest]
    simp

theorem recv_body (hphase : r.phase = .bodyRead header) (hbuffer : r.buffer = []) {body : List UInt8}
    (hlen : body.length = toSize header.length) (hne : body ≠ []) :
    recv handle r body = onBodyRead handle header { r with buffer := body } := by
  obtain ⟨front, b, rfl⟩ := (List.eq_nil_or_concat' body).resolve_left hne
  simp only [List.length_append, List.length_singleton] at hlen
  rw [recv_append, recv_part hphase (by rw [hbuffer]; simp; omega), recv_cons, recv_nil]
  have hfull : ¬(r.buffer ++ front ++ [b]).length < toSize header.length := by
    simp [hbuffer, hlen]
  simp only [recvByte, hphase, if_neg hfull]
  rw [hbuffer, List.nil_append]

theorem onBodyRead_phase (p : Phase) :
    onBodyRead handle header { r with phase := p } = onBodyRead handle header r := by
  unfold onBodyRead
  cases handle header r.buffer r.state <;> rfl

theorem recv_frame (hphase : r.phase = .headerRead) (hbuffer : r.buffer = [])
    (hpos : 0 ≤ header.length.toInt) {body : List UInt8} (hlen : body.length = toSize header.length) :
    recv handle r (header.bytes ++ body) = onBodyRead handle header
      { r with buffer := body, resized := r.resized ++ [toSize header.length] } := by
  have hmax : ¬maxSize < toSize header.length := by
    rw [maxSize_lt_toSize_iff]
    omega
  rw [recv_append, recv_header hphase hbuffer, asyncBodyRead]
  simp only [if_neg hmax]
  by_cases hzero : toSize header.length = 0
  · rw [if_pos hzero, List.eq_nil_of_length_eq_zero (hlen.trans hzero), recv_nil]
  · have hne : body ≠ [] := by
      rintro rfl
      exact hzero hlen.symm
    rw [if_neg hzero, recv_body rfl rfl hlen hne]
    exact onBodyRead_phase (r := { r with buffer := body, resized := r.resized ++ [toSize header.length] }) _

theorem recv_unfinished (hphase : r.phase = .headerRead) (hbuffer : r.buffer = [])
    (hpos : 0 ≤ header.length.toInt) {bytes : List UInt8} (hlen : bytes.length < toSize header.length) :
    recv handle r (header.bytes ++ bytes) =
      { r with
        phase := .bodyRead header, buffer := bytes, resized := r.resized ++ [toSize header.length] } := by
  have hmax : ¬maxSize < toSize header.length := by
    rw [maxSize_lt_toSize_iff]
    omega
  have hzero : ¬toSize header.length = 0 := by omega
  rw [recv_append, recv_header hphase hbuffer, asyncBodyRead]
  simp only [if_neg hmax, if_neg hzero]
  rw [recv_part rfl (by simpa using hlen)]
  rfl

theorem recv_negative (hphase : r.phase = .headerRead) (hbuffer : r.buffer = [])
    (hneg : header.length.toInt < 0) :
    recv handle r header.bytes =
      { r with buffer := [], resized := r.resized ++ [toSize header.length], phase := .raised .lengthError } := by
  have hmax : maxSize < toSize header.length := by rwa [maxSize_lt_toSize_iff]
  rw [recv_header hphase hbuffer, asyncBodyRead]
  simp only [if_pos hmax]

/-! ## Many frames -/

theorem recv_stopped (h : ∀ b, recvByte handle r b = r) (bytes : List UInt8) : recv handle r bytes = r := by
  induction bytes with
  | nil => rfl
  | cons b bytes ih => rw [recv_cons, h, ih]

theorem recv_raised {e : Raised} (h : r.phase = .raised e) (bytes : List UInt8) :
    recv handle r bytes = r :=
  recv_stopped (fun b => by simp only [recvByte, h]) bytes

/-- Segments are read as if they came in one. -/
theorem receive_segments (segments : List (List UInt8)) :
    receive handle r (segments.map .segment) = recv handle r segments.flatten := by
  induction segments generalizing r with
  | nil => rfl
  | cons bytes segments ih =>
    rw [List.map_cons, List.flatten_cons, recv_append, ← ih]
    rfl

section Related

variable {R : σ → σ → Prop} (hrefl : ∀ s, R s s)
  (hhandle : ∀ header body s s', handle header body s = .ok s' → R s s')

include hrefl hhandle

theorem onBodyRead_related (header : PacketHeader) (r : ReadLoop σ) :
    R r.state (onBodyRead handle header r).state := by
  unfold onBodyRead
  split
  · rename_i s hs
    exact hhandle _ _ _ _ hs
  · exact hrefl _

theorem onHeaderRead_related (r : ReadLoop σ) : R r.state (onHeaderRead handle r).state := by
  unfold onHeaderRead asyncBodyRead
  dsimp only
  split
  · split
    · exact hrefl _
    · split
      · exact onBodyRead_related hrefl hhandle _ { r with buffer := [], resized := _ }
      · exact hrefl _
  · exact hrefl _

theorem recvByte_related (r : ReadLoop σ) (b : UInt8) : R r.state (recvByte handle r b).state := by
  unfold recvByte
  dsimp only
  split
  · split
    · exact hrefl _
    · exact onHeaderRead_related hrefl hhandle { r with buffer := r.buffer ++ [b] }
  · split
    · exact hrefl _
    · exact onBodyRead_related hrefl hhandle _ { r with buffer := r.buffer ++ [b] }
  · exact hrefl _
  · exact hrefl _

theorem recv_related (htrans : ∀ a b c, R a b → R b c → R a c) (r : ReadLoop σ) (bytes : List UInt8) :
    R r.state (recv handle r bytes).state := by
  induction bytes generalizing r with
  | nil => exact hrefl _
  | cons b bytes ih => exact htrans _ _ _ (recvByte_related hrefl hhandle r b) (ih _)

end Related

end Core
