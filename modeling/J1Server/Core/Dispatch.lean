import J1Server.Core.Receive

/-! # Hostile input

Whatever bytes a peer sends: what has to hold of them for the read loop not to
raise. -/

namespace Core

abbrev uint16Max : Nat := 65535

abbrev HandlerTable (σ : Type) := Fin uint16Max → List UInt8 → σ → Except String σ

theorem toNat_lt_uint16Max (x : Int16) : x.toInt.toNat < uint16Max := by
  have := x.toInt_lt
  unfold uint16Max
  omega

/-- The entry that a code names. A negative code is before the first. -/
def PacketHeader.slot? (header : PacketHeader) : Option (Fin uint16Max) :=
  if 0 ≤ header.code.toInt then some ⟨header.code.toInt.toNat, toNat_lt_uint16Max header.code⟩ else none

variable {σ : Type} (table : HandlerTable σ)

/-- `HandlePacket` of every packet handler: the result of the entry is not looked at. -/
def handlePacket : HandlePacket σ := fun header body s =>
  match header.slot? with
  | some i =>
    match table i body s with
    | .ok s' => .ok s'
    | .error what => .error (.handler what)
  | none => .error .outOfBounds

/-- Nothing was raised, and every `resize` was given a length of a `short`. -/
structure Safe (r : ReadLoop σ) : Prop where
  raised : ∀ e, r.phase ≠ .raised e
  resized : ∀ n ∈ r.resized, n ≤ 32767

/-- Every header that is complete has a length that is not negative. If its body is complete, its code
names an entry, whose handler returns. -/
def Sound (bytes : List UInt8) (s : σ) : Prop :=
  match bytes with
  | b₀ :: b₁ :: b₂ :: b₃ :: rest =>
    let header : PacketHeader := ⟨shortOfBytes b₀ b₁, shortOfBytes b₂ b₃⟩
    let size := header.length.toInt.toNat
    0 ≤ header.length.toInt ∧ (size ≤ rest.length → ∃ i s', header.slot? = some i ∧
      table i (rest.take size) s = .ok s' ∧ Sound (rest.drop size) s')
  | _ => True
termination_by bytes.length
decreasing_by
  simp only [List.length_drop, List.length_cons]
  omega

variable {table}

theorem sound_cons (b₀ b₁ b₂ b₃ : UInt8) (rest : List UInt8) (s : σ) :
    Sound table (b₀ :: b₁ :: b₂ :: b₃ :: rest) s ↔
      0 ≤ (shortOfBytes b₀ b₁).toInt ∧ ((shortOfBytes b₀ b₁).toInt.toNat ≤ rest.length →
        ∃ i s', (⟨shortOfBytes b₀ b₁, shortOfBytes b₂ b₃⟩ : PacketHeader).slot? = some i ∧
          table i (rest.take (shortOfBytes b₀ b₁).toInt.toNat) s = .ok s' ∧
          Sound table (rest.drop (shortOfBytes b₀ b₁).toInt.toNat) s') := by
  rw [Sound]

theorem sound_short {bytes : List UInt8} (h : bytes.length < 4) (s : σ) : Sound table bytes s := by
  match bytes with
  | [] | [_] | [_, _] | [_, _, _] => simp [Sound]
  | _ :: _ :: _ :: _ :: _ => simp only [List.length_cons] at h; omega

theorem Sound.left {bytes more : List UInt8} {s : σ} (h : Sound table (bytes ++ more) s) :
    Sound table bytes s := by
  match bytes with
  | [] | [_] | [_, _] | [_, _, _] => exact sound_short (by simp) s
  | b₀ :: b₁ :: b₂ :: b₃ :: rest =>
    simp only [List.cons_append] at h
    rw [sound_cons] at h ⊢
    refine ⟨h.1, fun hlen => ?_⟩
    obtain ⟨i, s', hi, hs, hrest⟩ := h.2 (by rw [List.length_append]; omega)
    rw [List.take_append_of_le_length hlen] at hs
    rw [List.drop_append_of_le_length hlen] at hrest
    exact ⟨i, s', hi, hs, hrest.left⟩
termination_by bytes.length
decreasing_by
  simp only [List.length_drop, List.length_cons]
  omega

/-! ## The loop over a stream -/

theorem handlePacket_ok_iff {header : PacketHeader} {body : List UInt8} {s s' : σ} :
    handlePacket table header body s = .ok s' ↔
      ∃ i, header.slot? = some i ∧ table i body s = .ok s' := by
  unfold handlePacket
  cases header.slot? with
  | none => simp
  | some i => cases h : table i body s <;> simp [h]

variable {r : ReadLoop σ}

theorem recv_short (hphase : r.phase = .headerRead) (hbuffer : r.buffer = []) {bytes : List UInt8}
    (hlen : bytes.length < 4) {handle : HandlePacket σ} :
    recv handle r bytes = { r with buffer := bytes } := by
  obtain ⟨phase, buffer, resized, state⟩ := r
  simp only at hphase hbuffer
  subst hphase hbuffer
  match bytes with
  | [] | [_] | [_, _] | [_, _, _] => rfl
  | _ :: _ :: _ :: _ :: _ => simp only [List.length_cons] at hlen; omega

theorem recv_safe_iff {r : ReadLoop σ} (hphase : r.phase = .headerRead) (hbuffer : r.buffer = [])
    (hresized : ∀ n ∈ r.resized, n ≤ 32767) (bytes : List UInt8) :
    Safe (recv (handlePacket table) r bytes) ↔ Sound table bytes r.state := by
  match bytes with
  | [] | [_] | [_, _] | [_, _, _] =>
    rw [recv_short hphase hbuffer (by simp)]
    refine iff_of_true ⟨fun e h => ?_, hresized⟩ (sound_short (by simp) _)
    rw [hphase] at h
    cases h
  | b₀ :: b₁ :: b₂ :: b₃ :: rest =>
    obtain ⟨header, hheader⟩ : ∃ header : PacketHeader,
        header = ⟨shortOfBytes b₀ b₁, shortOfBytes b₂ b₃⟩ := ⟨_, rfl⟩
    have hlength : shortOfBytes b₀ b₁ = header.length := by rw [hheader]
    have hbytes : b₀ :: b₁ :: b₂ :: b₃ :: rest = header.bytes ++ rest := by
      rw [hheader, bytes_shortOfBytes]
      rfl
    rw [sound_cons, ← hheader, hlength, hbytes]
    by_cases hneg : header.length.toInt < 0
    · rw [recv_append, recv_negative hphase hbuffer hneg, recv_raised rfl]
      exact iff_of_false (fun h => h.raised _ rfl) (fun h => by omega)
    have hpos : 0 ≤ header.length.toInt := by omega
    have hsize := toSize_eq hpos
    have hresized' : ∀ n ∈ r.resized ++ [toSize header.length], n ≤ 32767 := by
      intro n hn
      rcases List.mem_append.mp hn with hn | hn
      · exact hresized n hn
      · rw [List.mem_singleton.mp hn]
        exact toSize_le _ hpos
    by_cases hfull : header.length.toInt.toNat ≤ rest.length
    · have hlen : (rest.take header.length.toInt.toNat).length = toSize header.length := by
        rw [List.length_take, hsize]
        omega
      have hsplit : header.bytes ++ rest = (header.bytes ++ rest.take header.length.toInt.toNat) ++
          rest.drop header.length.toInt.toNat := by
        rw [List.append_assoc, List.take_append_drop]
      rw [hsplit, recv_append, recv_frame hphase hbuffer hpos hlen]
      cases hhandle : handlePacket table header (rest.take header.length.toInt.toNat) r.state with
      | error e =>
        simp only [onBodyRead, hhandle]
        rw [recv_raised rfl]
        refine iff_of_false (fun h => h.raised _ rfl) fun ⟨_, h⟩ => ?_
        obtain ⟨i, s', hi, hs, -⟩ := h hfull
        rw [handlePacket_ok_iff.mpr ⟨i, hi, hs⟩] at hhandle
        cases hhandle
      | ok s' =>
        simp only [onBodyRead, hhandle]
        rw [recv_safe_iff rfl rfl hresized']
        obtain ⟨i, hi, hs⟩ := handlePacket_ok_iff.mp hhandle
        constructor
        · exact fun h => ⟨hpos, fun _ => ⟨i, s', hi, hs, h⟩⟩
        · rintro ⟨-, h⟩
          obtain ⟨j, s'', hj, hs', hrest⟩ := h hfull
          obtain rfl : s' = s'' := by
            rw [handlePacket_ok_iff.mpr ⟨j, hj, hs'⟩] at hhandle
            exact (Except.ok.inj hhandle).symm
          exact hrest
    · rw [recv_unfinished hphase hbuffer hpos (by omega)]
      exact iff_of_true ⟨fun _ => by simp, hresized'⟩ ⟨hpos, fun h => absurd h hfull⟩
termination_by bytes.length
decreasing_by
  simp only [List.length_drop, List.length_cons]
  omega

/-! ## The loop over what the network does -/

def arrived : List ReadEvent → List UInt8
  | [] => []
  | .segment bytes :: events => bytes ++ arrived events
  | .error :: _ => []

theorem receive_stopped {handle : HandlePacket σ} (hbyte : ∀ b, recvByte handle r b = r)
    (herror : onEvent handle r .error = r) (events : List ReadEvent) : receive handle r events = r := by
  induction events with
  | nil => rfl
  | cons event events ih =>
    have hstep : onEvent handle r event = r := by
      cases event with
      | segment bytes => exact recv_stopped hbyte bytes
      | error => exact herror
    rw [receive, List.foldl_cons, hstep]
    exact ih

/-- An error closes the session. It cannot raise, and hides nothing that was raised. -/
theorem receive_error {handle : HandlePacket σ} (r : ReadLoop σ) (events : List ReadEvent) :
    Safe (receive handle r (.error :: events)) ↔ Safe r := by
  rw [receive, List.foldl_cons]
  by_cases hraised : ∃ e, r.phase = .raised e
  · obtain ⟨e, hphase⟩ := hraised
    have herror : onEvent handle r .error = r := by simp only [onEvent, hphase]
    have hstopped := receive_stopped (fun b => by simp only [recvByte, hphase]) herror events
    rw [herror, ← receive, hstopped]
  · have hsafe : ∀ e, r.phase ≠ .raised e := fun e he => hraised ⟨e, he⟩
    have herror : onEvent handle r .error = { r with phase := .closed } := by
      cases hphase : r.phase with
      | raised e => exact absurd hphase (hsafe e)
      | headerRead | bodyRead _ | closed => simp only [onEvent, hphase]
    have hstopped : receive handle { r with phase := .closed } events = { r with phase := .closed } :=
      receive_stopped (fun _ => rfl) rfl events
    rw [herror, ← receive, hstopped]
    exact ⟨fun h => ⟨hsafe, h.resized⟩, fun h => ⟨fun _ => by simp, h.resized⟩⟩

theorem receive_arrived (r : ReadLoop σ) (events : List ReadEvent) {handle : HandlePacket σ} :
    Safe (receive handle r events) ↔ Safe (recv handle r (arrived events)) := by
  induction events generalizing r with
  | nil => rfl
  | cons event events ih =>
    cases event with
    | segment bytes =>
      rw [arrived, recv_append, ← ih]
      rfl
    | error => exact receive_error r events

theorem arrived_prefix {events events' : List ReadEvent} (h : events <+: events') :
    arrived events <+: arrived events' := by
  obtain ⟨more, rfl⟩ := h
  induction events with
  | nil => exact List.nil_prefix
  | cons event events ih =>
    cases event with
    | segment bytes => exact (List.prefix_append_right_inj bytes).mpr ih
    | error => exact List.nil_prefix

/-- At every point of every stream: nothing is raised and every `resize` is in bounds, if and only if
the bytes that arrive are sound. -/
theorem receive_safe_iff (table : HandlerTable σ) (s : σ) (events : List ReadEvent) :
    (∀ sofar, sofar <+: events → Safe (receive (handlePacket table) { state := s } sofar)) ↔
      Sound table (arrived events) s := by
  have hsound : ∀ sofar : List ReadEvent, Safe (receive (handlePacket table) { state := s } sofar) ↔
      Sound table (arrived sofar) s := fun sofar =>
    (receive_arrived _ sofar).trans (recv_safe_iff rfl rfl (by simp) _)
  constructor
  · intro h
    exact (hsound events).mp (h events List.prefix_rfl)
  · intro h sofar hsofar
    obtain ⟨more, hmore⟩ := arrived_prefix hsofar
    rw [← hmore] at h
    exact (hsound sofar).mpr h.left

/-- Two headers that four bytes can make: one has the length -1, the other the code -1. -/
theorem hostile_header_raises :
    (receive (handlePacket fun _ _ _ => .ok ()) { state := () } [.segment [255, 255, 1, 0]]).phase =
      .raised .lengthError ∧
    (receive (handlePacket fun _ _ _ => .ok ()) { state := () } [.segment [0, 0, 255, 255]]).phase =
      .raised .outOfBounds := by
  decide

end Core
