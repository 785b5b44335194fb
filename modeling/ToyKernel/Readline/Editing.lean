import ToyKernel.Readline.Echo

namespace ToyKernel.Readline

-- What a key does to a line of which `len` bytes, the NUL among them, can be stored
def editLine (len : Nat) (line : List UInt8) (c : UInt8) : List UInt8 :=
  if c = 0x08 ∨ c = 0x7F then line.dropLast
  else if 0x20 ≤ c ∧ c ≤ 0x7E ∧ line.length < len - 1 then line ++ [c]
  else line

def edited (len : Nat) (keys : List UInt8) : List UInt8 := keys.foldl (editLine len) []

section Loop

variable {buf : Nat → UInt8} {len : Nat} {e : Editor} {l keys : List UInt8} {enter c : UInt8}

theorem not_isControl_iff (herase : ¬IsErase c) : ¬IsControl c ↔ 0x20 ≤ c ∧ c ≤ 0x7E := by
  have hdelete : c.toNat ≠ 127 := fun h => herase (.inr (UInt8.toNat_inj.mp h))
  unfold IsControl
  rw [UInt8.lt_iff_toNat_lt, UInt8.le_iff_toNat_le, UInt8.le_iff_toNat_le, UInt8.le_iff_toNat_le]
  change ¬(c.toNat < 32 ∨ 128 ≤ c.toNat) ↔ 32 ≤ c.toNat ∧ c.toNat ≤ 126
  omega

-- While there is room it is the editing of an unbounded line.
theorem editLine_eq (len : Nat) (l : List UInt8) (c : UInt8) :
    editLine len l c = if IsErase c ∨ IsControl c ∨ l.length < len - 1 then editKey l c else l := by
  change (if IsErase c then l.dropLast
    else if 0x20 ≤ c ∧ c ≤ 0x7E ∧ l.length < len - 1 then l ++ [c] else l) = _
  unfold editKey
  by_cases herase : IsErase c
  · rw [if_pos herase, if_pos (.inl herase), if_pos herase]
  have hprint := not_isControl_iff herase
  rw [if_neg herase, if_neg herase]
  by_cases hcontrol : IsControl c
  · have hedit : IsErase c ∨ IsControl c ∨ l.length < len - 1 := .inr (.inl hcontrol)
    rw [if_pos hedit, if_pos hcontrol]
    exact if_neg fun h => hprint.mpr ⟨h.1, h.2.1⟩ hcontrol
  obtain ⟨hlow, hhigh⟩ := hprint.mp hcontrol
  simp only [hlow, hhigh, true_and, herase, hcontrol, false_or, if_false]

-- The buffer holds the line, with room for the NUL behind it, and nothing was stored past its end.
structure Edits (len : Nat) (buf : Nat → UInt8) (e : Editor) (l : List UInt8) : Prop where
  holds : Holds e l
  room : l.length < len
  stored : ∀ k ∈ e.stored, k < len
  kept : ∀ k, len ≤ k → e.buf k = buf k

theorem Edits.store (h : Edits len buf e l) (c : UInt8) :
    (∀ k ∈ (e.store e.i c).stored, k < len) ∧ ∀ k, len ≤ k → (e.store e.i c).buf k = buf k := by
  have hi := h.holds.i
  have hroom := h.room
  refine ⟨fun k hk => ?_, fun k hk => ?_⟩
  · rcases List.mem_append.mp hk with hk | hk
    · exact h.stored k hk
    · rw [List.mem_singleton.mp hk]
      omega
  · exact (if_neg (by omega)).trans (h.kept k hk)

theorem length_editLine (h : l.length < len) (c : UInt8) : (editLine len l c).length < len := by
  unfold editLine
  split
  · rw [List.length_dropLast]
    omega
  · split
    · rw [List.length_append, List.length_singleton]
      omega
    · exact h

-- A key stores one character at most, and only below the last byte.
theorem key_store (len : Nat) (e : Editor) (c : UInt8) :
    ((e.key len c).stored = e.stored ∧ (e.key len c).buf = e.buf) ∨
      (e.key len c).stored = (e.store e.i c).stored ∧ (e.key len c).buf = (e.store e.i c).buf := by
  unfold Editor.key
  split
  · split
    · exact .inl ⟨rfl, rfl⟩
    · exact .inl ⟨rfl, rfl⟩
  split
  · exact .inl ⟨rfl, rfl⟩
  split
  · exact .inr ⟨rfl, rfl⟩
  · exact .inl ⟨rfl, rfl⟩

theorem key_holds (h : Holds e l) (hroom : l.length < len) (c : UInt8) (hlen : len < 4294967296) :
    Holds (e.key len c) (editLine len l c) := by
  have hroom' := length_editLine hroom c
  rw [editLine_eq] at hroom' ⊢
  by_cases hedit : IsErase c ∨ IsControl c ∨ l.length < len - 1
  · rw [if_pos hedit] at hroom' ⊢
    exact (h.key c hroom' hlen).1
  -- a full buffer drops what is typed
  · rw [if_neg hedit]
    obtain ⟨herase, hcontrol, hfull⟩ : ¬IsErase c ∧ ¬IsControl c ∧ ¬l.length < len - 1 := by
      simpa only [not_or] using hedit
    have hlimit : u32Sub len 1 = len - 1 := u32Sub_of_le (by omega) hlen
    have hi := h.i
    rw [Editor.key, if_neg herase, if_neg hcontrol, if_neg (by omega)]
    exact h

theorem Edits.key (h : Edits len buf e l) (c : UInt8) (hlen : len < 4294967296) :
    Edits len buf (e.key len c) (editLine len l c) := by
  have hholds := key_holds h.holds h.room c hlen
  have hroom := length_editLine h.room c
  obtain ⟨hstored, hkept⟩ := h.store c
  rcases key_store len e c with ⟨hs, hb⟩ | ⟨hs, hb⟩
  · exact ⟨hholds, hroom, hs ▸ h.stored, hb ▸ h.kept⟩
  · exact ⟨hholds, hroom, hs ▸ hstored, hb ▸ hkept⟩

-- The loop from a line `l` on, up to the first Enter
theorem loop_edits (rest : List UInt8) (h : Edits len buf e l) (hlen : len < 4294967296)
    (hkeys : ∀ c ∈ keys, ¬IsEnter c) (henter : IsEnter enter) :
    ∃ e', loop len e (keys ++ enter :: rest) = some e' ∧ Edits len buf e' (keys.foldl (editLine len) l) ∧
      e'.buf e'.i = 0 := by
  induction keys generalizing e l with
  | nil =>
      have hi : (e.echo [NEWLINE]).i = l.length := h.holds.i
      obtain ⟨hstored, hkept⟩ := h.store 0
      refine ⟨_, if_pos henter, ⟨⟨hi, fun k c hk => ?_⟩, h.room, hstored, hkept⟩, if_pos rfl⟩
      obtain ⟨hlt, -⟩ := List.getElem?_eq_some_iff.mp hk
      change k < l.length at hlt
      exact (if_neg (by omega)).trans (h.holds.buf k c hk)
  | cons c keys ih =>
      rw [List.cons_append, loop, if_neg (hkeys c List.mem_cons_self)]
      exact ih (h.key c hlen) fun k hk => hkeys k (List.mem_cons_of_mem c hk)

end Loop

-- For a buffer of any length and whatever is typed up to Enter, readline stores into the buffer
-- only, leaves the edited line there with a NUL behind it, and returns its length.
theorem readline_edits (buf : Nat → UInt8) {len : Nat} (hpos : 1 ≤ len) (hlen : len < 4294967296)
    {keys : List UInt8} {enter : UInt8} (rest : List UInt8) (hkeys : ∀ c ∈ keys, ¬IsEnter c)
    (henter : IsEnter enter) :
    ∃ e, readline buf len (keys ++ enter :: rest) = some e ∧
      (∀ k ∈ e.stored, k < len) ∧ (∀ k, len ≤ k → e.buf k = buf k) ∧
      e.i = (edited len keys).length ∧ (∀ k c, (edited len keys)[k]? = some c → e.buf k = c) ∧
      e.buf e.i = 0 := by
  have hstart : Edits len buf { buf, stored := [], i := 0, echoed := [] } [] :=
    ⟨⟨rfl, nofun⟩, hpos, nofun, fun _ _ => rfl⟩
  obtain ⟨e, hloop, hedits, hnul⟩ := loop_edits rest hstart hlen hkeys henter
  exact ⟨e, hloop, hedits.stored, hedits.kept, hedits.holds.i, hedits.holds.buf, hnul⟩

-- Three characters and a backspace, in a buffer of three bytes
theorem readline_edits_sample :
    ∃ e, readline (fun _ => 0) 3 ([0x61, 0x62, 0x63, BACKSPACE] ++ CARRIAGE_RETURN :: []) = some e ∧
      (∀ k ∈ e.stored, k < 3) ∧ (∀ k, 3 ≤ k → e.buf k = 0) ∧
      e.i = (edited 3 [0x61, 0x62, 0x63, BACKSPACE]).length ∧
      (∀ k c, (edited 3 [0x61, 0x62, 0x63, BACKSPACE])[k]? = some c → e.buf k = c) ∧ e.buf e.i = 0 :=
  readline_edits (fun _ => 0) (by decide) (by decide) [] (by decide +kernel) (by decide)

end ToyKernel.Readline
