import M3Dev.UsbReceive
import Mathlib.Data.List.ReduceOption

/-! What `usb_recv` is for, and how far each of the three drivers gets. -/
namespace M3Dev.UsbReceive
open Buffer WhileLoop

/-- What is to be received of the packets, and the packets behind; `none` where they do not suffice. -/
def deliver : ℕ → List Packet → Option (List Byte × List Packet)
  | _, [] => none
  | count, p :: ps =>
    if p.length < 64 ∨ count ≤ 64 then
      some (p.take count, ps)
    else
      (deliver (count - 64) ps).map fun r => (p ++ r.1, r.2)

/-- The packet that ends it, with the space left for it. -/
def last : ℕ → List Packet → Option (ℕ × Packet)
  | _, [] => none
  | count, p :: ps => if p.length < 64 ∨ count ≤ 64 then some (count, p) else last (count - 64) ps

/-- A driver's `usb_recv`. `block` is how much of its buffer it copies for the last packet; it
never returns where the packet `hangs`, and `keeps` some of it where there is no space. -/
structure Driver (loc σ : Type) where
  pass : Body (loc × σ) (ℤ × σ)
  top : Recv → loc
  line : σ → Line
  mem : σ → ℕ → Byte
  buf : σ → ℕ → Byte
  Ready : σ → Prop
  block : ℕ → Packet → ℕ
  hangs : Packet → Prop
  keeps : ℕ → Packet → Prop
  fresh : Line → (ℕ → Byte) → σ

variable {loc σ : Type}

/-- A buffer after packets that came into it one after the other. -/
def refill (b : ℕ → Byte) (ps : List Packet) : ℕ → Byte := ps.foldl (fun b p => put b 0 p) b

/-- What of the line is packets. -/
def Driver.packets (D : Driver loc σ) (s : σ) : List Packet := (D.line s).reduceOption

/-- The bytes are where they belong, the memory behind and before is unchanged, and the result is
their number. -/
structure Received (data count : ℕ) (mem mem' : ℕ → Byte) (bytes : List Byte) (n : ℤ) : Prop where
  result : n = bytes.length
  stored : get mem' data bytes.length = bytes
  outside : ∀ x, x < data ∨ data + count ≤ x → mem' x = mem x

/-- From every state in which the endpoint is ready. -/
def Driver.Meets (D : Driver loc σ) (count : ℕ) (line : Line) : Prop :=
  ∀ data s, D.Ready s → D.line s = line →
    match deliver count line.reduceOption with
    | none => Diverges D.pass (D.top ⟨data, 0, count⟩, s)
    | some (bytes, rest) => ∃ n s', Leaves D.pass (D.top ⟨data, 0, count⟩, s) (n, s') ∧
        Received data count (D.mem s) (D.mem s') bytes n ∧ D.Ready s' ∧ D.packets s' = rest

/-- How the loop goes from a ready state: without a packet, with one that does not end it, and with
the one that does. -/
structure Driver.Works (D : Driver loc σ) : Prop where
  fresh_ready : ∀ line mem, D.Ready (D.fresh line mem)
  fresh_line : ∀ line mem, D.line (D.fresh line mem) = line
  fresh_mem : ∀ line mem, D.mem (D.fresh line mem) = mem
  fresh_buf : ∀ line mem mem', D.buf (D.fresh line mem) = D.buf (D.fresh line mem')
  waits : ∀ l s, D.Ready s → 0 < l.count → D.packets s = [] → Diverges D.pass (D.top l, s)
  full : ∀ l s p ps, D.Ready s → 64 < l.count → D.packets s = p :: ps → p.length = 64 →
    ∃ s', Reaches D.pass (D.top l, s) (D.top (l.add 64), s') ∧ D.Ready s' ∧ D.packets s' = ps ∧
      D.mem s' = put (D.mem s) l.data p ∧ D.buf s' = put (D.buf s) 0 p
  ends : ∀ l s p ps, D.Ready s → 0 < l.count → D.packets s = p :: ps → p.length ≤ 64 →
    (p.length < 64 ∨ l.count ≤ 64) → ¬ D.hangs p →
    ∃ s', Leaves D.pass (D.top l, s) (l.rx + min p.length l.count, s') ∧ (D.Ready s' ↔ ¬ D.keeps l.count p) ∧
      D.packets s' = ps ∧ D.mem s' = put (D.mem s) l.data (get (put (D.buf s) 0 p) 0 (D.block l.count p))
  hung : ∀ l s p ps, D.Ready s → 0 < l.count → D.packets s = p :: ps → D.hangs p →
    Diverges D.pass (D.top l, s)
  covers : ∀ room p, p.length ≤ 64 → min p.length room ≤ D.block room p

section
variable {D : Driver loc σ} {l : Recv} {s : σ} {count room : ℕ} {p : Packet} {ps rest : List Packet}

/-- Packets that do not suffice are all taken. -/
theorem Driver.Works.diverges (hD : D.Works) (hs : D.Ready s) (hcount : 0 < l.count)
    (hsize : ∀ p ∈ D.packets s, p.length ≤ 64) (hlast : last l.count (D.packets s) = none) :
    Diverges D.pass (D.top l, s) := by
  induction hps : D.packets s generalizing l s with
  | nil => exact hD.waits l s hs hcount hps
  | cons p ps ih =>
    rw [hps] at hlast hsize
    by_cases hend : p.length < 64 ∨ l.count ≤ 64
    · rw [last, if_pos hend] at hlast
      exact absurd hlast (by simp)
    · rw [last, if_neg hend] at hlast
      have hp : p.length ≤ 64 := hsize p (List.mem_cons_self ..)
      obtain ⟨s', hreach, hready, hrest, _, _⟩ := hD.full l s p ps hs (by omega) hps (by omega)
      apply hreach.diverges
      have hleft : 0 < (l.add 64).count := Nat.sub_pos_of_lt (by omega)
      apply ih hready hleft
      · intro q hq
        rw [hrest] at hq
        exact hsize q (List.mem_cons_of_mem _ hq)
      · rw [hrest]
        exact hlast
      · exact hrest

/-- The state in which the last packet is next, and what was received before it. -/
structure Driver.AtLast (D : Driver loc σ) (l : Recv) (s : σ) (room : ℕ) (p : Packet) (fs rest : List Packet)
    (s' : σ) : Prop where
  reaches : Reaches D.pass (D.top l, s) (D.top (l.add (64 * fs.length)), s')
  ready : D.Ready s'
  split : D.packets s = fs ++ p :: rest
  packets : D.packets s' = p :: rest
  size : p.length ≤ 64
  ends : p.length < 64 ∨ room ≤ 64
  count : l.count = 64 * fs.length + room
  bytes : fs.flatten.length = 64 * fs.length
  deliver : deliver l.count (D.packets s) = some (fs.flatten ++ p.take room, rest)
  mem : D.mem s' = put (D.mem s) l.data fs.flatten
  buf : D.buf s' = refill (D.buf s) fs

/-- One packet of 64 bytes more in front. -/
theorem Driver.AtLast.cons {fs rest : List Packet} {q : Packet} {s1 s' : σ}
    (h : D.AtLast (l.add 64) s1 room p fs rest s') (hcount : 64 < l.count) (hfull : q.length = 64)
    (hreach : Reaches D.pass (D.top l, s) (D.top (l.add 64), s1))
    (hps : D.packets s = q :: D.packets s1) (hmem : D.mem s1 = put (D.mem s) l.data q)
    (hbuf : D.buf s1 = put (D.buf s) 0 q) : D.AtLast l s room p (q :: fs) rest s' := by
  have hleft : l.count - 64 = 64 * fs.length + room := h.count
  have hadd : (l.add 64).add (64 * fs.length) = l.add (64 * (q :: fs).length) := by
    simp only [Recv.add, List.length_cons, Recv.mk.injEq]
    omega
  have hend : ¬ (q.length < 64 ∨ l.count ≤ 64) := by omega
  refine ⟨?_, h.ready, ?_, h.packets, h.size, h.ends, ?_, ?_, ?_, ?_, ?_⟩
  · have hreach' := h.reaches
    rw [hadd] at hreach'
    exact hreach.trans hreach'
  · rw [hps, h.split]
    rfl
  · rw [List.length_cons]
    omega
  · rw [List.flatten_cons, List.length_append, h.bytes, hfull, List.length_cons]
    omega
  · have hdeliver : UsbReceive.deliver (l.count - 64) (D.packets s1) =
        some (fs.flatten ++ p.take room, rest) := h.deliver
    rw [hps, UsbReceive.deliver, if_neg hend, hdeliver, Option.map_some, List.flatten_cons,
      List.append_assoc]
  · rw [h.mem, hmem, List.flatten_cons, put_append, hfull]
    rfl
  · rw [h.buf, hbuf]
    rfl

theorem Driver.Works.reaches_last (hD : D.Works) (hs : D.Ready s)
    (hsize : ∀ p ∈ D.packets s, p.length ≤ 64) (hlast : last l.count (D.packets s) = some (room, p)) :
    ∃ fs rest s', D.AtLast l s room p fs rest s' := by
  induction hps : D.packets s generalizing l s with
  | nil =>
    rw [hps] at hlast
    exact absurd hlast (by simp [last])
  | cons q ps ih =>
    rw [hps] at hlast hsize
    have hq : q.length ≤ 64 := hsize q (List.mem_cons_self ..)
    by_cases hend : q.length < 64 ∨ l.count ≤ 64
    · rw [last, if_pos hend] at hlast
      obtain ⟨rfl, rfl⟩ := Prod.mk.inj (Option.some.inj hlast)
      refine ⟨[], ps, s, .refl, hs, hps, hps, hq, hend, (Nat.zero_add _).symm, rfl, ?_, ?_, rfl⟩
      · rw [hps, UsbReceive.deliver, if_pos hend]
        rfl
      · exact (put_nil _ _).symm
    · rw [last, if_neg hend] at hlast
      have hfull : q.length = 64 := by omega
      have hmore : 64 < l.count := by omega
      obtain ⟨s1, hreach, hready, hrest, hmem, hbuf⟩ := hD.full l s q ps hs hmore hps hfull
      have hsize' : ∀ p ∈ D.packets s1, p.length ≤ 64 := by
        intro p hp
        rw [hrest] at hp
        exact hsize p (List.mem_cons_of_mem _ hp)
      have hlast' : last (l.add 64).count (D.packets s1) = some (room, p) := by
        rw [hrest]
        exact hlast
      obtain ⟨fs, rest, s', h⟩ := ih hready hsize' hlast' hrest
      rw [← hrest] at hps
      exact ⟨q :: fs, rest, s', h.cons hmore hfull hreach hps hmem hbuf⟩

theorem last_none_iff : last count ps = none ↔ deliver count ps = none := by
  induction ps generalizing count with
  | nil => simp [last, deliver]
  | cons p ps ih =>
    rw [last, deliver]
    by_cases hend : p.length < 64 ∨ count ≤ 64
    · rw [if_pos hend, if_pos hend]
      simp
    · rw [if_neg hend, if_neg hend, Option.map_eq_none_iff]
      exact ih

theorem last_pos (h : last count ps = some (room, p)) (hcount : 0 < count) : 0 < room := by
  induction ps generalizing count with
  | nil => exact absurd h (by simp [last])
  | cons q ps ih =>
    rw [last] at h
    by_cases hend : q.length < 64 ∨ count ≤ 64
    · rw [if_pos hend] at h
      obtain ⟨rfl, _⟩ := Prod.mk.inj (Option.some.inj h)
      exact hcount
    · rw [if_neg hend] at h
      exact ih h (by omega)

/-- The last packet comes where the others were not enough. -/
theorem Driver.AtLast.returns {fs : List Packet} {s' : σ} (hD : D.Works)
    (h : D.AtLast l s room p fs rest s') (hroom : 0 < room) (hp : ¬ D.hangs p) :
    ∃ s'', Leaves D.pass (D.top l, s) ((l.rx + 64 * fs.length : ℕ) + min p.length room, s'') ∧
      (D.Ready s'' ↔ ¬ D.keeps room p) ∧ D.packets s'' = rest ∧
      D.mem s'' =
        put (D.mem s) l.data (fs.flatten ++ get (put (refill (D.buf s) fs) 0 p) 0 (D.block room p)) := by
  have hcount : (l.add (64 * fs.length)).count = room := by
    show l.count - 64 * fs.length = room
    rw [h.count, Nat.add_sub_cancel_left]
  obtain ⟨s'', hleaves, hready, hrest, hmem⟩ := hD.ends _ _ p rest h.ready
    (hcount.symm ▸ hroom) h.packets h.size (hcount.symm ▸ h.ends) hp
  rw [hcount] at hleaves hready hmem
  refine ⟨s'', h.reaches.leaves hleaves, hready, hrest, ?_⟩
  rw [hmem, h.mem, h.buf, put_append, h.bytes]
  rfl

/-- The driver is done with the last packet as it should be. -/
structure Driver.Suits (D : Driver loc σ) (room : ℕ) (p : Packet) : Prop where
  ends : ¬ D.hangs p
  whole : ¬ D.keeps room p
  fits : D.block room p ≤ room

theorem Driver.AtLast.received {fs : List Packet} {s' s'' : σ} {data : ℕ} (hD : D.Works)
    (h : D.AtLast ⟨data, 0, count⟩ s room p fs rest s') (hfits : D.block room p ≤ room)
    (hmem : D.mem s'' =
      put (D.mem s) data (fs.flatten ++ get (put (refill (D.buf s) fs) 0 p) 0 (D.block room p))) :
    Received data count (D.mem s) (D.mem s'') (fs.flatten ++ p.take room)
      ((0 + 64 * fs.length : ℕ) + min p.length room) := by
  have hcovers := hD.covers room p h.size
  have hcount : count = 64 * fs.length + room := h.count
  constructor
  · rw [List.length_append, h.bytes, List.length_take, Nat.min_comm]
    omega
  · have hlen : (fs.flatten ++ p.take room).length = fs.flatten.length + min p.length room := by
      rw [List.length_append, List.length_take, Nat.min_comm]
    have hprefix : (get (put (refill (D.buf s) fs) 0 p) 0 (D.block room p)).take
        (min p.length room) = p.take room := by
      rw [get_take hcovers, get_put (Nat.min_le_left _ _), Nat.min_comm, ← List.take_eq_take_min]
    have hfit : fs.flatten.length + min p.length room ≤ (fs.flatten ++
        get (put (refill (D.buf s) fs) 0 p) 0 (D.block room p)).length := by
      rw [List.length_append, get_length]
      omega
    rw [hmem, hlen, get_put hfit, List.take_length_add_append, hprefix]
  · intro x hx
    rw [hmem]
    rcases hx with hbefore | hbehind
    · exact put_before hbefore
    · apply put_behind
      rw [List.length_append, get_length, h.bytes]
      omega

/-- What follows where a run from the fresh state gives what is to be received. -/
theorem Driver.Works.of_meets (hD : D.Works) {line : Line} {mem : ℕ → Byte} {fs : List Packet} {s' : σ}
    (h : D.AtLast ⟨0, 0, count⟩ (D.fresh line mem) room p fs rest s') (hroom : 0 < room)
    (hmeets : D.Meets count line) :
    ¬ D.hangs p ∧ ¬ D.keeps room p ∧ (room < D.block room p →
      put (refill (D.buf (D.fresh line mem)) fs) 0 p room = mem count) := by
  have hcount : count = 64 * fs.length + room := h.count
  have hgot := hmeets 0 (D.fresh line mem) (hD.fresh_ready _ _) (hD.fresh_line _ _)
  have hdeliver := h.deliver
  rw [Driver.packets, hD.fresh_line] at hdeliver
  rw [show deliver count line.reduceOption = _ from hdeliver] at hgot
  obtain ⟨n, s1, hleaves, hreceived, hready, _⟩ := hgot
  have hreturns : ¬ D.hangs p := by
    intro hp
    have hat : 0 < ((⟨0, 0, count⟩ : Recv).add (64 * fs.length)).count := by
      show 0 < count - 64 * fs.length
      omega
    exact (h.reaches.diverges (hD.hung _ _ p rest h.ready hat h.packets hp)).not_leaves hleaves
  obtain ⟨s2, hleaves', hready', _, hmem⟩ := h.returns hD hroom hreturns
  obtain rfl : s1 = s2 := (Prod.mk.inj (hleaves.unique hleaves')).2
  refine ⟨hreturns, hready'.mp hready, ?_⟩
  intro hblock
  have houtside := hreceived.outside count (.inr (Nat.zero_add count).le)
  let block := get (put (refill (D.buf (D.fresh line mem)) fs) 0 p) 0 (D.block room p)
  have hin : count < (fs.flatten ++ block).length := by
    rw [List.length_append, h.bytes, get_length]
    omega
  have hat : fs.flatten.length ≤ count := by
    rw [h.bytes]
    omega
  have hsub : count - fs.flatten.length = room := by
    rw [h.bytes]
    omega
  have hwritten : put mem 0 (fs.flatten ++ block) (0 + count) = (fs.flatten ++ block)[count] := put_inside hin
  rw [hmem, hD.fresh_mem] at houtside
  rw [Nat.zero_add, List.getElem_append_right hat, get_getElem, Nat.zero_add, hsub] at hwritten
  exact hwritten.symm.trans houtside

/-- A driver does what it is for exactly where it does nothing odd with the packet that ends it. -/
theorem Driver.Works.meets_iff (hD : D.Works) {line : Line} (hcount : 0 < count)
    (hsize : ∀ p ∈ line.reduceOption, p.length ≤ 64) :
    D.Meets count line ↔ ∀ room p, last count line.reduceOption = some (room, p) → D.Suits room p := by
  constructor
  · intro hmeets room p hlast
    have hstart (mem : ℕ → Byte) : ∃ fs rest s', D.AtLast ⟨0, 0, count⟩ (D.fresh line mem) room p fs rest s' := by
      have hpackets : D.packets (D.fresh line mem) = line.reduceOption := by
        rw [Driver.packets, hD.fresh_line]
      exact hD.reaches_last (hD.fresh_ready _ _) (hpackets.symm ▸ hsize) (hpackets.symm ▸ hlast)
    have hroom := last_pos hlast hcount
    obtain ⟨fs, rest, s', h⟩ := hstart fun _ => 0
    obtain ⟨hends, hwhole, _⟩ := hD.of_meets h hroom hmeets
    refine ⟨hends, hwhole, Nat.not_lt.mp fun hblock => ?_⟩
    -- memory that differs from what is behind the packet in the buffer
    let b := put (refill (D.buf (D.fresh line fun _ => 0)) fs) 0 p room
    obtain ⟨fs', rest', s'', h'⟩ := hstart fun _ => b + 1
    have hline : D.packets (D.fresh line fun _ => 0) = D.packets (D.fresh line fun _ => b + 1) := by
      rw [Driver.packets, Driver.packets, hD.fresh_line, hD.fresh_line]
    have hsplit := h.split.symm.trans (hline.trans h'.split)
    have hlen : fs.length = fs'.length := by
      have hcount := h.count.symm.trans h'.count
      omega
    obtain ⟨rfl, _⟩ := List.append_inj hsplit hlen
    have hbyte := (hD.of_meets h' hroom hmeets).2.2 hblock
    rw [hD.fresh_buf line _ fun _ => 0] at hbyte
    have hne : b ≠ b + 1 := by
      intro heq
      have hone : b + 0 = b + 1 := (BitVec.add_zero b).trans heq
      exact absurd ((BitVec.add_right_inj b).mp hone) (by decide)
    exact hne hbyte
  · intro hsuits data s hs hline
    have hpackets : D.packets s = line.reduceOption := by rw [Driver.packets, hline]
    cases hlast : last count line.reduceOption with
    | none =>
      rw [last_none_iff.mp hlast]
      exact hD.diverges hs hcount (hpackets.symm ▸ hsize) (hpackets.symm ▸ hlast)
    | some q =>
      obtain ⟨room, p⟩ := q
      have hp := hsuits room p hlast
      obtain ⟨fs, rest, s', h⟩ := hD.reaches_last (l := ⟨data, 0, count⟩) hs (hpackets.symm ▸ hsize)
        (hpackets.symm ▸ hlast)
      obtain ⟨s'', hleaves, hready, hrest, hmem⟩ := h.returns hD (last_pos hlast hcount) hp.ends
      have hdeliver := h.deliver
      rw [hpackets] at hdeliver
      rw [show deliver count line.reduceOption = _ from hdeliver]
      exact ⟨_, s'', hleaves, h.received hD hp.fits hmem, hready.mpr hp.whole, hrest⟩

end

end M3Dev.UsbReceive
