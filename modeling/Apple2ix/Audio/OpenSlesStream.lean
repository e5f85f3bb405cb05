import Mathlib.Data.List.GetD
import Apple2ix.Audio.OpenSlesRing

/-! What is heard of a voice, against a queue of bytes. The callback reads over the end of the ring
into the overflow, and clears what it has read, so that it depends on the steps what stands
there. -/
namespace Apple2ix.OpenSles
open Runs
set_option autoImplicit false

/-! ## The stream -/

/-- The stream of a voice: what was committed and is still to be played, what is filled in but not
committed, all that was committed, and what each callback took. -/
structure Fifo where
  queue : List UInt8
  filled : List UInt8
  committed : List UInt8
  chunks : List (List UInt8)

def Fifo.empty : Fifo where
  queue := []
  filled := []
  committed := []
  chunks := []

def Fifo.next (submitSize : ℕ) (f : Fifo) : Step → Fifo
  | .fill data => { f with filled := data }
  | .unlock _ =>
    { f with queue := f.queue ++ f.filled, committed := f.committed ++ f.filled, filled := [] }
  | .callback =>
    { f with queue := f.queue.drop submitSize, chunks := f.chunks ++ [f.queue.take submitSize] }
  | _ => f

def Fifo.after (submitSize : ℕ) (steps : List Step) : Fifo :=
  steps.foldl (Fifo.next submitSize) .empty

/-- Zeros behind the data, where it has run out. -/
def pad (submitSize : ℕ) (chunk : List UInt8) : List UInt8 :=
  chunk ++ List.replicate (submitSize - chunk.length) 0

/-- What there is to hear: the chunks, each with its zeros. -/
def Fifo.heard (submitSize : ℕ) (f : Fifo) : List UInt8 := f.chunks.flatMap (pad submitSize)

/-- The chunks and the queue are all that was committed, in order. -/
theorem Fifo.after_committed (submitSize : ℕ) (steps : List Step) :
    (after submitSize steps).committed =
      (after submitSize steps).chunks.flatten ++ (after submitSize steps).queue := by
  have hstep : ∀ (f : Fifo) (a : Step), f.committed = f.chunks.flatten ++ f.queue →
      (f.next submitSize a).committed =
        (f.next submitSize a).chunks.flatten ++ (f.next submitSize a).queue := by
    intro f a h
    cases a with
    | unlock n =>
      simp only [next]
      rw [h, List.append_assoc]
    | callback =>
      simp only [next, List.flatten_append, List.flatten_singleton]
      rw [h, List.append_assoc, List.take_append_drop]
    | _ => exact h
  have hfold : ∀ (f : Fifo), f.committed = f.chunks.flatten ++ f.queue →
      (steps.foldl (next submitSize) f).committed =
        (steps.foldl (next submitSize) f).chunks.flatten ++
          (steps.foldl (next submitSize) f).queue := by
    induction steps with
    | nil => exact fun f h => h
    | cons a steps ih => exact fun f h => ih _ (hstep f a h)
  exact hfold .empty rfl

theorem pad_take (submitSize : ℕ) (queue : List UInt8) :
    pad submitSize (queue.take submitSize) = (List.range submitSize).map fun i =>
      queue.getD i 0 := by
  refine List.ext_getElem (by simp [pad]) fun i hi hi' => ?_
  rw [List.length_map, List.length_range] at hi'
  rw [List.getElem_map, List.getElem_range]
  simp only [pad]
  by_cases hq : i < queue.length
  · rw [List.getElem_append_left (by simp; omega), List.getElem_take,
      List.getD_eq_getElem _ _ hq]
  · rw [List.getElem_append_right (by simp; omega), List.getElem_replicate,
      List.getD_eq_default _ _ (by omega)]

/-! ## What the steps leave in the ring -/

namespace SLVoice
variable {ctx : EngineContext} {voice : SLVoice} {n x : ℕ}

/-- How far a place of the ring is ahead of the reader. -/
def index (voice : SLVoice) (x : ℕ) : ℕ :=
  if voice.readHead ≤ x then x - voice.readHead else x + voice.bufferSize - voice.readHead

/-- What a callback clears: what it took, and where it wraps also the overflow and the start. -/
def Cleared (ctx : EngineContext) (voice : SLVoice) (x : ℕ) : Prop :=
  voice.readHead ≤ x ∧ x < voice.readHead + ctx.submitSize ∨
    voice.bufferSize ≤ voice.readHead + ctx.submitSize ∧
      (voice.bufferSize ≤ x ∧ x < voice.bufferSize + ctx.submitSize ∨
        x < voice.readHead + ctx.submitSize - voice.bufferSize)

theorem backfill_cleared (h : voice.Cleared ctx x) : (voice.backfill ctx).ringBuffer x = 0 := by
  rw [Cleared] at h
  rw [backfill]
  split_ifs with hwrap
  · simp only [Buf.copy, zeros, Nat.zero_le, true_and, Nat.zero_add]
    split_ifs
    · rfl
    · rfl
    · rfl
    · omega
  · simp only [Buf.copy, zeros]
    rw [if_pos (by omega)]

theorem backfill_kept (h : ¬ voice.Cleared ctx x) :
    (voice.backfill ctx).ringBuffer x = voice.ringBuffer x := by
  rw [Cleared] at h
  rw [backfill]
  split_ifs with hwrap
  · simp only
    rw [Buf.copy_outside _ _ _ _ _ (by omega), Buf.copy_outside _ _ _ _ _ (by omega),
      Buf.copy_outside _ _ _ _ _ (by omega)]
  · simp only
    rw [Buf.copy_outside _ _ _ _ _ (by omega)]

/-- A write over the end is copied out of the overflow to the start. -/
theorem commit_start (hx : x < voice.writeHead + n - voice.bufferSize) :
    (voice.commit ctx n).ringBuffer x = voice.ringBuffer (voice.bufferSize + x) := by
  have hcopy := Buf.copy_inside voice.ringBuffer (voice.ringBuffer.from voice.bufferSize) 0 _ x hx
  rw [Nat.zero_add] at hcopy
  rw [commit, if_pos (by omega)]
  exact hcopy

/-- A write at the start is copied into the overflow. -/
theorem commit_mirrored (hwrap : voice.writeHead + n < voice.bufferSize) (hge : voice.writeHead ≤ x)
    (hlt : x < voice.writeHead + n) (hstart : x < ctx.submitSize) :
    (voice.commit ctx n).ringBuffer (voice.bufferSize + x) = voice.ringBuffer x := by
  have hcopy := Buf.copy_inside voice.ringBuffer (voice.ringBuffer.from voice.writeHead)
    (voice.bufferSize + voice.writeHead) (min n (ctx.submitSize - voice.writeHead))
    (x - voice.writeHead) (by omega)
  have hplace : voice.bufferSize + voice.writeHead + (x - voice.writeHead) =
      voice.bufferSize + x := by omega
  rw [hplace, Buf.from, Nat.add_sub_cancel' hge] at hcopy
  rw [commit, if_neg (by omega), if_pos (by omega)]
  exact hcopy

/-- Every other place is as it was. -/
theorem commit_kept (hstart : voice.writeHead + n - voice.bufferSize ≤ x)
    (hmirror : voice.writeHead + n < voice.bufferSize → voice.bufferSize ≤ x →
      ¬ (voice.writeHead ≤ x - voice.bufferSize ∧ x - voice.bufferSize < voice.writeHead + n ∧
        x - voice.bufferSize < ctx.submitSize)) :
    (voice.commit ctx n).ringBuffer x = voice.ringBuffer x := by
  rw [commit]
  split_ifs with hwrap hprevious
  · exact Buf.copy_outside _ _ _ _ _ (by omega)
  · have := hmirror (Nat.not_le.mp hwrap)
    exact Buf.copy_outside _ _ _ _ _ (by omega)
  · rfl

theorem commit_index (ctx : EngineContext) (voice : SLVoice) (n x : ℕ) :
    (voice.commit ctx n).index x = voice.index x := by
  obtain ⟨hsize, hhead, -⟩ := voice.commit_heads ctx n
  rw [index, index, hhead, hsize]

end SLVoice

/-! ## The ledger -/

/-- What the steps alone tell: how far writer and reader are in the stream, whether a buffer is
locked and what is filled in, and what was committed since the reader was last at the end of the
ring, each piece with its place in the ring. -/
structure Ledger where
  committed : ℕ
  played : ℕ
  locked : Bool
  filled : List UInt8
  pieces : List (ℕ × List UInt8)

namespace Ledger

def empty : Ledger where
  committed := 0
  played := 0
  locked := false
  filled := []
  pieces := []

def next (ctx : EngineContext) (bufferSize : ℕ) (l : Ledger) : Step → Ledger
  | .getPosition => { l with committed := max l.committed l.played }
  | .lock _ => { l with committed := max l.committed l.played, locked := true }
  | .fill data => { l with filled := data }
  | .unlock _ =>
    { l with
      committed := l.committed + l.filled.length
      locked := false
      filled := []
      pieces := l.pieces ++ [(l.committed % bufferSize, l.filled)] }
  | .callback =>
    { l with
      played := l.played + ctx.submitSize
      pieces := if bufferSize ≤ l.played % bufferSize + ctx.submitSize then [] else l.pieces }

abbrev step (ctx : EngineContext) (bufferSize : ℕ) (l : Ledger) (a : Step) : Except Fault Ledger :=
  .ok (l.next ctx bufferSize a)

/-- No piece that stands wholly in the ring has left a byte behind its end, but for zeros. -/
def Silent (bufferSize : ℕ) (l : Ledger) (place : ℕ) : Prop :=
  ∀ start data, (start, data) ∈ l.pieces → start + data.length < bufferSize →
    ∀ j, j < data.length → start + j = place → data.getD j 0 = 0

end Ledger

/-- A write commits what it has filled in. -/
def Whole (l : Ledger) : Step → Prop
  | .unlock audioBytes => l.filled.length = audioBytes
  | _ => True

/-- No lock comes when the ring is exactly full, and no callback between a lock and its unlock when
there is less to play than it takes; where the data runs out otherwise, no piece since the last turn
of the reader was left in the overflow where it takes it for silence; and no wrap counter
overflows. -/
def Clear (ctx : EngineContext) (bufferSize : ℕ) (l : Ledger) : Step → Prop
  | .getPosition => True
  | .lock _ => l.committed ≠ l.played + bufferSize
  | .fill _ => True
  | .unlock _ => (l.committed + l.filled.length) / bufferSize < ctx.ulong
  | .callback =>
    (l.played + ctx.submitSize) / bufferSize < ctx.ulong ∧
      (l.locked = true → l.played + ctx.submitSize ≤ l.committed) ∧
      ∀ i, l.committed - l.played ≤ i → i < ctx.submitSize →
        bufferSize ≤ l.played % bufferSize + i →
        l.Silent bufferSize (l.played % bufferSize + i - bufferSize)

/-- A callback for which there is data. -/
theorem Clear.plenty {ctx : EngineContext} {bufferSize : ℕ} {l : Ledger}
    (hplenty : l.played + ctx.submitSize ≤ l.committed)
    (hcount : (l.played + ctx.submitSize) / bufferSize < ctx.ulong) :
    Clear ctx bufferSize l .callback :=
  ⟨hcount, fun _ => hplenty, fun i hge hlt => absurd hge (by omega)⟩

/-! ## The invariant -/

/-- The ledger is right about the session. -/
structure Session.Kept (s : Session) (f : Fifo) (l : Ledger) : Prop where
  committed : l.committed = s.committed
  played : l.played = s.played
  locked : l.locked = s.lock.isSome
  filled : l.filled = f.filled

/-- The ring holds the stream. -/
structure Session.Streams (ctx : EngineContext) (s : Session) (f : Fifo) : Prop where
  heard : s.heard = f.heard ctx.submitSize
  length : f.queue.length = s.committed - s.played
  level : s.lock ≠ none → s.played ≤ s.committed
  fits : ∀ l, s.lock = some l → f.filled = l.data.getD [] ∧ f.filled.length ≤ l.audioBytes
  idle : s.lock = none → f.filled = []
  /-- What is filled in stands in one piece. -/
  filled : ∀ j, j < f.filled.length →
    s.voice.ringBuffer (s.voice.writeHead + j) = f.filled.getD j 0
  /-- In the ring there is the queue, and silence behind it. -/
  ring : ∀ x, x < s.voice.bufferSize →
    ¬ (s.voice.writeHead ≤ x ∧ x < s.voice.writeHead + f.filled.length) →
    s.voice.ringBuffer x = f.queue.getD (s.voice.index x) 0
  /-- What the reader will find of the queue in the overflow. -/
  overflow : ∀ i, i < f.queue.length → s.voice.bufferSize ≤ s.voice.readHead + i →
    s.voice.readHead + i < s.voice.bufferSize + ctx.submitSize →
    s.voice.ringBuffer (s.voice.readHead + i) = f.queue.getD i 0

/-- Behind the queue the overflow is silent, where the ledger has it so. -/
def Session.Still (ctx : EngineContext) (s : Session) (f : Fifo) (l : Ledger) : Prop :=
  ∀ place, place < ctx.submitSize →
    s.voice.readHead + f.queue.length ≤ s.voice.bufferSize + place →
    ¬ (s.voice.writeHead ≤ s.voice.bufferSize + place ∧
      s.voice.bufferSize + place < s.voice.writeHead + f.filled.length) →
    l.Silent s.voice.bufferSize place → s.voice.ringBuffer (s.voice.bufferSize + place) = 0

/-- Where the writer is ahead of the reader, with what it has filled in. -/
structure Session.Placed (ctx : EngineContext) (s : Session) (f : Fifo) : Prop where
  read_lt : s.voice.readHead < s.voice.bufferSize
  write_lt : s.voice.writeHead < s.voice.bufferSize
  ahead : s.voice.writeHead = s.voice.readHead + f.queue.length ∨
    s.voice.writeHead + s.voice.bufferSize = s.voice.readHead + f.queue.length
  room : f.queue.length + f.filled.length ≤ s.voice.bufferSize
  end_le : s.voice.writeHead + f.filled.length ≤ s.voice.bufferSize + ctx.submitSize

section
variable {ctx : EngineContext} {bufferSize : ℕ} {s t : Session} {f : Fifo} {l : Ledger} {a : Step}

/-- Where the writer is ahead of the reader. -/
theorem Session.Counted.ahead (h : s.Counted bufferSize) (hbounded : s.Bounded ctx bufferSize)
    (hle : s.played ≤ s.committed) :
    s.voice.writeHead = s.voice.readHead + (s.committed - s.played) ∨
      s.voice.writeHead + bufferSize = s.voice.readHead + (s.committed - s.played) := by
  obtain ⟨hplayed, hcommitted, hroom, -⟩ := h
  obtain ⟨hsize, ⟨hread, hwrite⟩, -⟩ := hbounded
  rw [hsize] at hread hwrite
  have hahead : s.committed - s.played ≤ bufferSize := by omega
  have hturn := turn_cases hread hwrite hahead (by rw [← hcommitted, ← hplayed]; omega)
  exact hturn.imp And.right And.right

theorem Session.Streams.placed (h : s.Streams ctx f) (hcounted : s.Counted bufferSize)
    (hbounded : s.Bounded ctx bufferSize) (hlock : s.lock ≠ none) : s.Placed ctx f := by
  obtain ⟨k, hk⟩ := Option.ne_none_iff_exists'.mp hlock
  have hlevel := h.level hlock
  have hahead := hcounted.ahead hbounded hlevel
  have hgranted := hcounted.granted k hk
  have hlength := h.length
  have hfits := (h.fits k hk).2
  obtain ⟨rfl, ⟨hread, hwrite⟩, hbounds⟩ := hbounded
  have hend := (hbounds k hk).2
  exact ⟨hread, hwrite, by omega, by omega, by omega⟩

/-- The heads are where the ledger says. -/
theorem Session.Counted.places (h : s.Counted bufferSize) (hbounded : s.Bounded ctx bufferSize) :
    s.committed % bufferSize = s.voice.writeHead ∧ s.played % bufferSize = s.voice.readHead := by
  obtain ⟨rfl, ⟨hread, hwrite⟩, -⟩ := hbounded
  rw [h.committed, h.played, Nat.mul_add_mod_self_right, Nat.mul_add_mod_self_right]
  exact ⟨Nat.mod_eq_of_lt hwrite, Nat.mod_eq_of_lt hread⟩

/-- A turn that is completed counts. -/
theorem turn_lt {turn place ahead ulong : ℕ} (hsize : 0 < bufferSize)
    (h : (turn * bufferSize + place + ahead) / bufferSize < ulong)
    (hwrap : bufferSize ≤ place + ahead) : turn + 1 < ulong := by
  refine Nat.lt_of_le_of_lt ((Nat.le_div_iff_mul_le hsize).mpr ?_) h
  rw [Nat.add_mul, Nat.one_mul]
  omega

/-- A step that is clear by the ledger is sound. -/
theorem Clear.sound (hclear : Clear ctx bufferSize l a) (hwhole : Whole l a) (hkept : s.Kept f l)
    (hcounted : s.Counted bufferSize) (hbounded : s.Bounded ctx bufferSize) : Sound ctx s a := by
  have hsize : 0 < bufferSize := hbounded.size ▸ Nat.zero_lt_of_lt hbounded.voice.readHead_lt
  cases a with
  | getPosition => trivial
  | lock writeBytes =>
    intro hfull
    rcases hcounted.working hbounded with ⟨-, hcommitted, -⟩ | ⟨hnot, -⟩
    · refine hclear ?_
      rw [hkept.committed, hkept.played]
      exact hcommitted
    · exact hnot hfull
  | fill data => trivial
  | unlock audioBytes =>
    intro hwrap
    have hlt : (l.committed + l.filled.length) / bufferSize < ctx.ulong := hclear
    rw [hwhole, hkept.committed, hcounted.committed] at hlt
    rw [hbounded.size] at hwrap
    exact turn_lt hsize hlt hwrap
  | callback =>
    intro hwrap
    have hlt := hclear.1
    rw [hkept.played, hcounted.played] at hlt
    rw [hbounded.size] at hwrap
    exact turn_lt hsize hlt hwrap

theorem Session.Kept.step (h : s.Kept f l) (hwhole : Whole l a)
    (hstepped : Stepped ctx s a t) :
    t.Kept (f.next ctx.submitSize a) (l.next ctx bufferSize a) := by
  obtain ⟨hcommitted, hplayed, hlocked, hfilled⟩ := h
  cases hstepped with
  | getPosition hnone =>
    refine ⟨?_, hplayed, hlocked, hfilled⟩
    change max l.committed l.played = max s.committed s.played
    rw [hcommitted, hplayed]
  | lock writeBytes audioBytes hnone _ _ =>
    refine ⟨?_, hplayed, rfl, hfilled⟩
    change max l.committed l.played = max s.committed s.played
    rw [hcommitted, hplayed]
  | fill data audioPtr audioBytes hlock hdata =>
    refine ⟨hcommitted, hplayed, ?_, rfl⟩
    rw [hlock] at hlocked
    exact hlocked
  | unlock audioBytes k hlock _ =>
    refine ⟨?_, hplayed, rfl, rfl⟩
    have hbytes : l.filled.length = audioBytes := hwhole
    change l.committed + l.filled.length = s.committed + audioBytes
    rw [hcommitted, hbytes]
  | callback =>
    refine ⟨hcommitted, ?_, hlocked, hfilled⟩
    change l.played + ctx.submitSize = s.played + ctx.submitSize
    rw [hplayed]

theorem getD_append (first rest : List UInt8) (i : ℕ) :
    (first ++ rest).getD i 0 =
      if i < first.length then first.getD i 0 else rest.getD (i - first.length) 0 := by
  split_ifs with h
  · exact List.getD_append _ _ _ _ h
  · exact List.getD_append_right _ _ _ _ (Nat.not_lt.mp h)

theorem getD_drop (queue : List UInt8) (n i : ℕ) :
    (queue.drop n).getD i 0 = queue.getD (n + i) 0 := by
  rw [List.getD_eq_getElem?_getD, List.getD_eq_getElem?_getD, List.getElem?_drop]

end

/-! ## The checks for an underrun, and fills -/

section
variable {ctx : EngineContext} {bufferSize : ℕ} {s : Session} {f : Fifo} {l : Ledger}

/-- **The check** for an underrun. -/
theorem Session.Streams.resync (h : s.Streams ctx f) (hcounted : s.Counted bufferSize)
    (hbounded : s.Bounded ctx bufferSize) (hnone : s.lock = none) (l : Option Lock)
    (hl : ∀ l', l = some l' → l'.data = none) :
    Streams ctx { s with
      voice := s.voice.resync
      lock := l
      committed := max s.committed s.played } f := by
  have hunder := hcounted.isUnder_iff hbounded
  obtain ⟨hheard, hlength, -, -, hidle, -, hring, hoverflow⟩ := h
  have hfilled := hidle hnone
  have hindex : ∀ x, s.voice.resync.index x = s.voice.index x := by
    intro x
    rw [SLVoice.index, SLVoice.index, SLVoice.resync_readHead, SLVoice.resync_bufferSize]
  refine ⟨hheard, ?_, fun _ => ?_, ?_, fun _ => hfilled, ?_, ?_, ?_⟩
  · change f.queue.length = max s.committed s.played - s.played
    omega
  · exact Nat.le_max_right _ _
  · intro l' hl'
    rw [hfilled, hl l' hl']
    exact ⟨rfl, Nat.zero_le _⟩
  · intro j hj
    rw [hfilled] at hj
    cases hj
  · intro x hx _
    change s.voice.resync.ringBuffer x = f.queue.getD (s.voice.resync.index x) 0
    rw [SLVoice.resync_ringBuffer, hindex]
    rw [SLVoice.resync_bufferSize] at hx
    refine hring x hx ?_
    rw [hfilled, List.length_nil]
    omega
  · simp only [SLVoice.resync_ringBuffer, SLVoice.resync_readHead, SLVoice.resync_bufferSize]
    exact hoverflow

theorem Session.Still.resync (h : s.Still ctx f l) (hfilled : f.filled = []) (k : Option Lock)
    (committed now : ℕ) (locked : Bool) :
    Still ctx { s with
      voice := s.voice.resync
      lock := k
      committed := now } f { l with committed := committed, locked := locked } := by
  intro place hplace hbehind _ hsilent
  simp only [SLVoice.resync_ringBuffer, SLVoice.resync_readHead, SLVoice.resync_bufferSize]
    at hbehind hsilent ⊢
  refine h place hplace hbehind ?_ hsilent
  rw [hfilled, List.length_nil]
  omega

/-- **A fill**: what is granted holds nothing of the queue, in the ring or in the overflow. -/
theorem Session.Streams.fill (h : s.Streams ctx f) (hcounted : s.Counted bufferSize)
    (hbounded : s.Bounded ctx bufferSize) {data : List UInt8} {audioPtr audioBytes : ℕ}
    (hlock : s.lock = some ⟨audioPtr, audioBytes, none⟩) (hdata : data.length ≤ audioBytes) :
    Streams ctx { s with
      voice := s.voice.fill audioPtr data
      lock := some ⟨audioPtr, audioBytes, some data⟩ } (f.next ctx.submitSize (.fill data)) := by
  have hlevel : s.played ≤ s.committed := h.level (by simp [hlock])
  have hahead := hcounted.ahead hbounded hlevel
  have hgranted := hcounted.granted _ hlock
  have hroom := hcounted.room
  obtain ⟨hsize, ⟨hread, hwrite⟩, hbounds⟩ := hbounded
  obtain ⟨hptr, hend⟩ := hbounds _ hlock
  obtain ⟨hheard, hlength, -, hfits, -, -, hring, hoverflow⟩ := h
  have hfilled : f.filled = [] := (hfits _ hlock).1
  simp only at hptr hend hgranted
  subst hptr
  refine ⟨hheard, hlength, fun _ => hlevel, ?_, nofun, ?_, ?_, ?_⟩
  · intro l hl
    cases hl
    exact ⟨rfl, hdata⟩
  · intro j hj
    exact Buf.copy_inside s.voice.ringBuffer (data.getD · 0) s.voice.writeHead data.length j hj
  · intro x hx hout
    change ¬ (s.voice.writeHead ≤ x ∧ x < s.voice.writeHead + data.length) at hout
    change s.voice.ringBuffer.copy s.voice.writeHead (data.getD · 0) data.length x =
      f.queue.getD (s.voice.index x) 0
    rw [Buf.copy_outside _ _ _ _ _ (by omega)]
    refine hring x hx ?_
    rw [hfilled, List.length_nil]
    omega
  · intro i hi hge hlt
    change i < f.queue.length at hi
    change s.voice.bufferSize ≤ s.voice.readHead + i at hge
    change s.voice.readHead + i < s.voice.bufferSize + ctx.submitSize at hlt
    change s.voice.ringBuffer.copy s.voice.writeHead (data.getD · 0) data.length
      (s.voice.readHead + i) = f.queue.getD i 0
    rw [Buf.copy_outside _ _ _ _ _ (by omega)]
    exact hoverflow i hi hge hlt

theorem Session.Still.fill (h : s.Still ctx f l) (hfilled : f.filled = []) (k : Option Lock)
    (data : List UInt8) :
    Still ctx { s with
      voice := s.voice.fill s.voice.writeHead data
      lock := k } (f.next ctx.submitSize (.fill data)) (l.next ctx bufferSize (.fill data)) := by
  intro place hplace hbehind hout hsilent
  change ¬ (s.voice.writeHead ≤ s.voice.bufferSize + place ∧
    s.voice.bufferSize + place < s.voice.writeHead + data.length) at hout
  change s.voice.ringBuffer.copy s.voice.writeHead (data.getD · 0) data.length
    (s.voice.bufferSize + place) = 0
  rw [Buf.copy_outside _ _ _ _ _ (by omega)]
  refine h place hplace hbehind ?_ hsilent
  rw [hfilled, List.length_nil]
  omega

end

/-! ## Unlocks -/

section
variable {ctx : EngineContext} {bufferSize : ℕ} {s : Session} {f : Fifo} {l : Ledger} {x i : ℕ}

/-- What is filled in stands behind the queue in the ring. -/
theorem Session.Streams.joined (h : s.Streams ctx f) (hplaced : s.Placed ctx f)
    (hx : x < s.voice.bufferSize)
    (hbehind : s.voice.writeHead + f.filled.length - s.voice.bufferSize ≤ x) :
    s.voice.ringBuffer x = (f.queue ++ f.filled).getD (s.voice.index x) 0 := by
  obtain ⟨hread, hwrite, hahead, hroom, -⟩ := hplaced
  rw [getD_append]
  by_cases hin : s.voice.writeHead ≤ x ∧ x < s.voice.writeHead + f.filled.length
  · have hj := h.filled (x - s.voice.writeHead) (by omega)
    rw [Nat.add_sub_cancel' hin.1] at hj
    have hindex : s.voice.index x = f.queue.length + (x - s.voice.writeHead) := by
      rw [SLVoice.index]
      split_ifs <;> omega
    rw [hj, hindex, if_neg (by omega), Nat.add_sub_cancel_left]
  · rw [h.ring x hx hin]
    have hindex : s.voice.index x < f.queue.length ∨
        f.queue.length + f.filled.length ≤ s.voice.index x := by
      rw [SLVoice.index]
      split_ifs <;> omega
    rcases hindex with hlt | hge
    · rw [if_pos hlt]
    · rw [if_neg (by omega), List.getD_eq_default _ _ (by omega),
        List.getD_eq_default _ _ (by omega)]

/-- What of it goes over the end belongs at the start. -/
theorem Session.Streams.wrapped (h : s.Streams ctx f) (hplaced : s.Placed ctx f)
    (hx : x < s.voice.writeHead + f.filled.length - s.voice.bufferSize) :
    s.voice.ringBuffer (s.voice.bufferSize + x) =
      (f.queue ++ f.filled).getD (s.voice.index x) 0 := by
  obtain ⟨hread, hwrite, hahead, hroom, -⟩ := hplaced
  have hj := h.filled (s.voice.bufferSize + x - s.voice.writeHead) (by omega)
  rw [Nat.add_sub_cancel' (by omega)] at hj
  have hindex : s.voice.index x =
      f.queue.length + (s.voice.bufferSize + x - s.voice.writeHead) := by
    rw [SLVoice.index]
    split_ifs <;> omega
  rw [hj, hindex, getD_append, if_neg (by omega), Nat.add_sub_cancel_left]

/-- What the reader will find in the overflow behind an unlock. -/
theorem Session.Streams.commit_overflow (h : s.Streams ctx f) (hplaced : s.Placed ctx f)
    (hsubmit : ctx.submitSize ≤ s.voice.bufferSize) (hi : i < f.queue.length + f.filled.length)
    (hge : s.voice.bufferSize ≤ s.voice.readHead + i)
    (hlt : s.voice.readHead + i < s.voice.bufferSize + ctx.submitSize) :
    (s.voice.commit ctx f.filled.length).ringBuffer (s.voice.readHead + i) =
      (f.queue ++ f.filled).getD i 0 := by
  obtain ⟨hread, hwrite, hahead, hroom, hend⟩ := hplaced
  rw [getD_append]
  split_ifs with hold
  · -- a byte of the queue stays where it is
    rw [SLVoice.commit_kept (by omega) (by omega)]
    exact h.overflow i hold hge hlt
  · have hj := h.filled (i - f.queue.length) (by omega)
    rcases hahead with hahead | hahead
    · -- what went over the end is there
      rw [SLVoice.commit_kept (by omega) (by omega), ← hj]
      congr 1
      omega
    · -- the start was copied to the overflow
      have hplace : s.voice.readHead + i =
          s.voice.bufferSize + (s.voice.writeHead + (i - f.queue.length)) := by omega
      rw [hplace, SLVoice.commit_mirrored (by omega) (by omega) (by omega) (by omega), hj]

/-- **An unlock**: what was filled in is behind the queue, and the overflow is as the start of the
ring, or the other way round. -/
theorem Session.Streams.unlock (h : s.Streams ctx f) (hplaced : s.Placed ctx f)
    (hsubmit : ctx.submitSize ≤ s.voice.bufferSize) (hlevel : s.played ≤ s.committed) :
    Streams ctx { s with
      voice := s.voice.commit ctx f.filled.length
      lock := none
      committed := s.committed + f.filled.length }
        (f.next ctx.submitSize (.unlock f.filled.length)) := by
  have hnext : (f.next ctx.submitSize (.unlock f.filled.length)).queue = f.queue ++ f.filled := rfl
  have hnone : (f.next ctx.submitSize (.unlock f.filled.length)).filled = [] := rfl
  obtain ⟨hsize, hhead, -⟩ := s.voice.commit_heads ctx f.filled.length
  refine ⟨h.heard, ?_, by simp, by simp, fun _ => rfl, by simp [hnone], ?_, ?_⟩
  · rw [hnext, List.length_append, h.length]
    change _ = s.committed + f.filled.length - s.played
    omega
  · intro x hx _
    change x < (s.voice.commit ctx f.filled.length).bufferSize at hx
    change (s.voice.commit ctx f.filled.length).ringBuffer x =
      (f.queue ++ f.filled).getD ((s.voice.commit ctx f.filled.length).index x) 0
    rw [hsize] at hx
    rw [SLVoice.commit_index]
    rcases Nat.lt_or_ge x (s.voice.writeHead + f.filled.length - s.voice.bufferSize) with hlt | hge
    · rw [SLVoice.commit_start hlt]
      exact h.wrapped hplaced hlt
    · rw [SLVoice.commit_kept hge fun _ hover => absurd hx (Nat.not_lt.mpr hover)]
      exact h.joined hplaced hx hge
  · intro i hi hge hlt
    rw [hnext, List.length_append] at hi
    change (s.voice.commit ctx f.filled.length).bufferSize ≤
      (s.voice.commit ctx f.filled.length).readHead + i at hge
    change (s.voice.commit ctx f.filled.length).readHead + i <
      (s.voice.commit ctx f.filled.length).bufferSize + _ at hlt
    change (s.voice.commit ctx f.filled.length).ringBuffer
      ((s.voice.commit ctx f.filled.length).readHead + i) = (f.queue ++ f.filled).getD i 0
    rw [hhead, hsize] at hge hlt
    rw [hhead]
    exact h.commit_overflow hplaced hsubmit hi hge hlt

/-- The ledger has the new piece, where it was copied into the overflow. -/
theorem Session.Still.unlock (h : s.Still ctx f l) (hstreams : s.Streams ctx f)
    (hplaced : s.Placed ctx f) (hsubmit : ctx.submitSize ≤ s.voice.bufferSize)
    (hfilled : l.filled = f.filled)
    (hplace : l.committed % s.voice.bufferSize = s.voice.writeHead) :
    Still ctx { s with
      voice := s.voice.commit ctx f.filled.length
      lock := none
      committed := s.committed + f.filled.length }
        (f.next ctx.submitSize (.unlock f.filled.length))
        (l.next ctx s.voice.bufferSize (.unlock f.filled.length)) := by
  obtain ⟨hread, hwrite, hahead, hroom, hend⟩ := hplaced
  obtain ⟨hsize, hhead, -⟩ := s.voice.commit_heads ctx f.filled.length
  intro place hlt hbehind _ hsilent
  change (s.voice.commit ctx f.filled.length).readHead + (f.queue ++ f.filled).length ≤
    (s.voice.commit ctx f.filled.length).bufferSize + place at hbehind
  change Ledger.Silent (s.voice.commit ctx f.filled.length).bufferSize _ place at hsilent
  change (s.voice.commit ctx f.filled.length).ringBuffer
    ((s.voice.commit ctx f.filled.length).bufferSize + place) = 0
  rw [hsize] at hbehind hsilent ⊢
  rw [hhead, List.length_append] at hbehind
  by_cases hmirror : s.voice.writeHead + f.filled.length < s.voice.bufferSize ∧
      s.voice.writeHead ≤ place ∧ place < s.voice.writeHead + f.filled.length
  · obtain ⟨hwrap, hge, hin⟩ := hmirror
    have hpiece : (s.voice.writeHead, f.filled) ∈
        (l.next ctx s.voice.bufferSize (.unlock f.filled.length)).pieces := by
      rw [← hplace, ← hfilled]
      exact List.mem_append_right _ (List.mem_singleton_self _)
    have hzero := hsilent _ _ hpiece hwrap (place - s.voice.writeHead) (by omega)
      (Nat.add_sub_cancel' hge)
    have hj := hstreams.filled (place - s.voice.writeHead) (by omega)
    rw [Nat.add_sub_cancel' hge] at hj
    rw [SLVoice.commit_mirrored hwrap hge hin hlt, hj, hzero]
  · rw [SLVoice.commit_kept (by omega) (by omega)]
    refine h place hlt (by omega) (by omega) ?_
    intro start data hmem
    exact hsilent start data (List.mem_append_left _ hmem)

end

/-! ## Callbacks -/

section
variable {ctx : EngineContext} {bufferSize : ℕ} {s : Session} {f : Fifo} {l : Ledger} {x i : ℕ}

/-- What the callback takes, where it is clear. -/
theorem Session.Streams.window (h : s.Streams ctx f) (hstill : s.Still ctx f l)
    (hplaced : s.lock ≠ none → s.Placed ctx f) (hread : s.voice.readHead < s.voice.bufferSize)
    (hlocked : s.lock ≠ none → ctx.submitSize ≤ f.queue.length)
    (hquiet : ∀ i, f.queue.length ≤ i → i < ctx.submitSize →
      s.voice.bufferSize ≤ s.voice.readHead + i →
      l.Silent s.voice.bufferSize (s.voice.readHead + i - s.voice.bufferSize)) :
    s.voice.window ctx.submitSize = pad ctx.submitSize (f.queue.take ctx.submitSize) := by
  rw [pad_take, SLVoice.window]
  refine List.map_congr_left fun i hi => ?_
  rw [List.mem_range] at hi
  -- in a lock the queue goes up to what is filled in
  have houtside : ¬ (s.voice.writeHead ≤ s.voice.readHead + i ∧
      s.voice.readHead + i < s.voice.writeHead + f.filled.length) := by
    by_cases hlock : s.lock = none
    · rw [h.idle hlock, List.length_nil]
      omega
    · obtain ⟨-, -, hahead, hroom, -⟩ := hplaced hlock
      have := hlocked hlock
      omega
  rcases Nat.lt_or_ge (s.voice.readHead + i) s.voice.bufferSize with hlt | hge
  · rw [h.ring _ hlt houtside, SLVoice.index, if_pos (Nat.le_add_right ..), Nat.add_sub_cancel_left]
  · rcases Nat.lt_or_ge i f.queue.length with hqueue | hqueue
    · exact h.overflow i hqueue hge (by omega)
    · have hplace : s.voice.bufferSize + (s.voice.readHead + i - s.voice.bufferSize) =
          s.voice.readHead + i := Nat.add_sub_cancel' hge
      have hzero := hstill (s.voice.readHead + i - s.voice.bufferSize) (by omega) (by omega)
        (by rw [hplace]; exact houtside) (hquiet i hqueue hi hge)
      rw [hplace] at hzero
      rw [List.getD_eq_default _ _ hqueue, hzero]

/-- What is cleared is a ring ahead of the reader then, what is not is where it was. -/
theorem SLVoice.backfill_index {voice : SLVoice} (hread : voice.readHead < voice.bufferSize)
    (hquarter : 4 * ctx.submitSize ≤ voice.bufferSize) (hx : x < voice.bufferSize) :
    voice.Cleared ctx x ∧ voice.bufferSize ≤ ctx.submitSize + (voice.backfill ctx).index x ∨
      ¬ voice.Cleared ctx x ∧ voice.index x = ctx.submitSize + (voice.backfill ctx).index x := by
  obtain ⟨hsize, -, -, hheads⟩ := voice.backfill_heads ctx
  rw [Cleared, index, index, hsize]
  rcases hheads with ⟨hwrap, hhead, -⟩ | ⟨hwrap, hhead, -⟩
  · by_cases hx' : voice.readHead ≤ x ∨ x < voice.readHead + ctx.submitSize - voice.bufferSize
    · refine Or.inl ⟨by omega, ?_⟩
      split_ifs <;> omega
    · refine Or.inr ⟨by omega, ?_⟩
      split_ifs <;> omega
  · by_cases hx' : voice.readHead ≤ x ∧ x < voice.readHead + ctx.submitSize
    · refine Or.inl ⟨by omega, ?_⟩
      split_ifs <;> omega
    · refine Or.inr ⟨by omega, ?_⟩
      split_ifs <;> omega

/-- **A callback** goes on in the queue, and leaves silence behind it. -/
theorem Session.Streams.callback (h : s.Streams ctx f) (hplaced : s.lock ≠ none → s.Placed ctx f)
    (hread : s.voice.readHead < s.voice.bufferSize)
    (hquarter : 4 * ctx.submitSize ≤ s.voice.bufferSize)
    (hroom : f.queue.length ≤ s.voice.bufferSize)
    (hlocked : s.lock ≠ none → ctx.submitSize ≤ f.queue.length)
    (hwindow : s.voice.window ctx.submitSize = pad ctx.submitSize (f.queue.take ctx.submitSize)) :
    Streams ctx { s with
      voice := s.voice.backfill ctx
      played := s.played + ctx.submitSize
      heard := s.heard ++ s.voice.window ctx.submitSize } (f.next ctx.submitSize .callback) := by
  obtain ⟨hsize, hwrite, -, hheads⟩ := s.voice.backfill_heads ctx
  have hnext : (f.next ctx.submitSize .callback).queue = f.queue.drop ctx.submitSize := rfl
  have hsame : (f.next ctx.submitSize .callback).filled = f.filled := rfl
  have hlength := h.length
  refine ⟨?_, ?_, ?_, h.fits, h.idle, ?_, ?_, ?_⟩
  · change s.heard ++ s.voice.window ctx.submitSize = _
    rw [h.heard, hwindow, Fifo.heard, Fifo.heard, Fifo.next, List.flatMap_append,
      List.flatMap_singleton]
  · rw [hnext, List.length_drop, hlength]
    change _ = s.committed - (s.played + ctx.submitSize)
    omega
  · intro hsome
    have := hlocked hsome
    have := h.level hsome
    change s.played + ctx.submitSize ≤ s.committed
    omega
  · intro j hj
    rw [hsame] at hj ⊢
    change (s.voice.backfill ctx).ringBuffer ((s.voice.backfill ctx).writeHead + j) = _
    -- what is filled in is ahead of what is cleared
    have hkept : ¬ s.voice.Cleared ctx (s.voice.writeHead + j) := by
      have hsome : s.lock ≠ none := by
        intro hlock
        rw [h.idle hlock] at hj
        cases hj
      obtain ⟨-, hwrite, hahead, hroom, -⟩ := hplaced hsome
      have := hlocked hsome
      rw [SLVoice.Cleared]
      omega
    rw [hwrite, SLVoice.backfill_kept hkept, h.filled j hj]
  · intro x hx hout
    change x < (s.voice.backfill ctx).bufferSize at hx
    change ¬ ((s.voice.backfill ctx).writeHead ≤ x ∧
      x < (s.voice.backfill ctx).writeHead + f.filled.length) at hout
    change (s.voice.backfill ctx).ringBuffer x =
      (f.queue.drop ctx.submitSize).getD ((s.voice.backfill ctx).index x) 0
    rw [hsize] at hx
    rw [hwrite] at hout
    rw [getD_drop]
    rcases SLVoice.backfill_index hread hquarter hx with ⟨hcleared, hindex⟩ | ⟨hkept, hindex⟩
    · rw [SLVoice.backfill_cleared hcleared, List.getD_eq_default _ _ (by omega)]
    · rw [SLVoice.backfill_kept hkept, h.ring x hx hout, hindex]
  · intro i hi hge hlt
    rw [hnext, List.length_drop] at hi
    change (s.voice.backfill ctx).bufferSize ≤ (s.voice.backfill ctx).readHead + i at hge
    change (s.voice.backfill ctx).readHead + i < (s.voice.backfill ctx).bufferSize + _ at hlt
    change (s.voice.backfill ctx).ringBuffer ((s.voice.backfill ctx).readHead + i) =
      (f.queue.drop ctx.submitSize).getD i 0
    rw [hsize] at hge hlt
    rcases hheads with ⟨hwrap, hhead, -⟩ | ⟨hwrap, hhead, -⟩
    · omega
    · have hkept : ¬ s.voice.Cleared ctx (s.voice.readHead + ctx.submitSize + i) := by
        rw [SLVoice.Cleared]
        omega
      rw [getD_drop, hhead, SLVoice.backfill_kept hkept, Nat.add_assoc]
      exact h.overflow (ctx.submitSize + i) (by omega) (by omega) (by omega)

/-- A reader that wraps clears the overflow, and the ledger forgets the pieces. -/
theorem Session.Still.callback (h : s.Still ctx f l)
    (hread : s.voice.readHead < s.voice.bufferSize)
    (hplace : l.played % s.voice.bufferSize = s.voice.readHead) (now : ℕ) (heard : List UInt8) :
    Still ctx { s with
      voice := s.voice.backfill ctx
      played := now
      heard := heard } (f.next ctx.submitSize .callback)
        (l.next ctx s.voice.bufferSize .callback) := by
  obtain ⟨hsize, hwrite, -, hheads⟩ := s.voice.backfill_heads ctx
  intro place hlt hbehind hout hsilent
  change (s.voice.backfill ctx).readHead + (f.queue.drop ctx.submitSize).length ≤
    (s.voice.backfill ctx).bufferSize + place at hbehind
  change ¬ ((s.voice.backfill ctx).writeHead ≤ (s.voice.backfill ctx).bufferSize + place ∧
    (s.voice.backfill ctx).bufferSize + place <
      (s.voice.backfill ctx).writeHead + f.filled.length) at hout
  change Ledger.Silent (s.voice.backfill ctx).bufferSize _ place at hsilent
  change (s.voice.backfill ctx).ringBuffer ((s.voice.backfill ctx).bufferSize + place) = 0
  rw [hsize] at hbehind hout hsilent ⊢
  rw [List.length_drop] at hbehind
  rw [hwrite] at hout
  by_cases hcleared : s.voice.Cleared ctx (s.voice.bufferSize + place)
  · exact SLVoice.backfill_cleared hcleared
  · rw [SLVoice.backfill_kept hcleared]
    rw [SLVoice.Cleared] at hcleared
    rcases hheads with ⟨hwrap, hhead, -⟩ | ⟨hwrap, hhead, -⟩
    · omega
    · refine h place hlt (by omega) hout ?_
      have hpieces : (l.next ctx s.voice.bufferSize .callback).pieces = l.pieces := by
        change (if s.voice.bufferSize ≤ l.played % s.voice.bufferSize + ctx.submitSize then []
          else l.pieces) = l.pieces
        rw [hplace, if_neg (by omega)]
      intro start data hmem
      rw [← hpieces] at hmem
      exact hsilent start data hmem

end

/-! ## Runs -/

/-- All that holds between the steps. -/
structure Session.Follows (ctx : EngineContext) (bufferSize : ℕ) (s : Session) (f : Fifo)
    (l : Ledger) : Prop where
  bounded : s.Bounded ctx bufferSize
  counted : s.Counted bufferSize
  streams : s.Streams ctx f
  kept : s.Kept f l
  still : s.Still ctx f l

section
variable {ctx : EngineContext} {bufferSize : ℕ} {s t : Session} {f : Fifo} {l : Ledger} {a : Step}

theorem Session.Follows.callback (h : s.Follows ctx bufferSize f l)
    (hquarter : 4 * ctx.submitSize ≤ bufferSize) (hclear : Clear ctx bufferSize l .callback) :
    Streams ctx { s with
        voice := s.voice.backfill ctx
        played := s.played + ctx.submitSize
        heard := s.heard ++ s.voice.window ctx.submitSize } (f.next ctx.submitSize .callback) ∧
      Still ctx { s with
        voice := s.voice.backfill ctx
        played := s.played + ctx.submitSize
        heard := s.heard ++ s.voice.window ctx.submitSize } (f.next ctx.submitSize .callback)
        (l.next ctx bufferSize .callback) := by
  obtain ⟨hbounded, hcounted, hstreams, hkept, hstill⟩ := h
  obtain ⟨-, hlocked, hquiet⟩ := hclear
  have hlength := hstreams.length
  have hplaced := hstreams.placed hcounted hbounded
  have hplace := (hcounted.places hbounded).2
  have hread := hbounded.voice.readHead_lt
  have hroom := hcounted.room
  obtain rfl := hbounded.size
  rw [hkept.played, hkept.committed] at hlocked hquiet
  rw [hplace, ← hlength] at hquiet
  have henough : s.lock ≠ none → ctx.submitSize ≤ f.queue.length := by
    intro hsome
    have := hlocked (hkept.locked.trans (Option.isSome_iff_ne_none.mpr hsome))
    omega
  refine ⟨?_, hstill.callback hread (by rw [hkept.played]; exact hplace) _ _⟩
  exact hstreams.callback hplaced hread hquarter (by omega) henough
    (hstreams.window hstill hplaced hread henough hquiet)

theorem Session.Follows.step (h : s.Follows ctx bufferSize f l)
    (hquarter : 4 * ctx.submitSize ≤ bufferSize) (hstepped : Stepped ctx s a t)
    (hwhole : Whole l a) (hclear : Clear ctx bufferSize l a) :
    t.Follows ctx bufferSize (f.next ctx.submitSize a) (l.next ctx bufferSize a) := by
  have hsound := hclear.sound hwhole h.kept h.counted h.bounded
  have hbounded := h.bounded.step hquarter hstepped
  have hcounted := h.counted.step h.bounded hstepped hsound
  have hkept : t.Kept (f.next ctx.submitSize a) (l.next ctx bufferSize a) :=
    h.kept.step hwhole hstepped
  cases hstepped with
  | getPosition hnone =>
    have hstreams := h.streams.resync h.counted h.bounded hnone none nofun
    have hstill := h.still.resync (h.streams.idle hnone) none (max l.committed l.played)
      (max s.committed s.played) l.locked
    rw [← hnone] at hstreams hstill
    exact ⟨hbounded, hcounted, hstreams, hkept, hstill⟩
  | lock writeBytes audioBytes hnone _ _ =>
    refine ⟨hbounded, hcounted, ?_, hkept,
      h.still.resync (h.streams.idle hnone) _ (max l.committed l.played) _ true⟩
    refine h.streams.resync h.counted h.bounded hnone _ fun k hk => ?_
    cases hk
    rfl
  | fill data audioPtr audioBytes hlock hdata =>
    refine ⟨hbounded, hcounted, h.streams.fill h.counted h.bounded hlock hdata, hkept, ?_⟩
    obtain rfl : audioPtr = s.voice.writeHead := (h.bounded.lock _ hlock).1
    exact h.still.fill (h.streams.fits _ hlock).1 _ data
  | unlock audioBytes k hlock _ =>
    have hsome : s.lock ≠ none := by simp [hlock]
    have hplaced := h.streams.placed h.counted h.bounded hsome
    have hplace := (h.counted.places h.bounded).1
    have hbytes : f.filled.length = audioBytes := h.kept.filled ▸ hwhole
    subst hbytes
    have hsubmit : ctx.submitSize ≤ s.voice.bufferSize := by
      rw [h.bounded.size]
      omega
    refine ⟨hbounded, hcounted, h.streams.unlock hplaced hsubmit (h.streams.level hsome), hkept, ?_⟩
    obtain rfl := h.bounded.size
    exact h.still.unlock h.streams hplaced hsubmit h.kept.filled
      (by rw [h.kept.committed]; exact hplace)
  | callback =>
    obtain ⟨hstreams, hstill⟩ := h.callback hquarter hclear
    exact ⟨hbounded, hcounted, hstreams, hkept, hstill⟩

theorem start_follows (ctx : EngineContext) (hsize : 0 < bufferSize) :
    (start bufferSize).Follows ctx bufferSize .empty .empty := by
  refine ⟨start_bounded ctx hsize, start_counted bufferSize, ?_, ⟨rfl, rfl, rfl, rfl⟩,
    fun _ _ _ _ _ => rfl⟩
  refine ⟨rfl, rfl, fun h => absurd rfl h, nofun, fun _ => rfl, nofun, ?_, nofun⟩
  intro x _ _
  simp [start, SLVoice.create, Fifo.empty]

/-- **A run** whose steps are clear follows the queue. -/
theorem Session.Follows.run (hquarter : 4 * ctx.submitSize ≤ bufferSize) {steps : List Step}
    (h : s.Follows ctx bufferSize f l)
    (hwhole : Along (Ledger.step ctx bufferSize) Whole l steps)
    (hclear : Along (Ledger.step ctx bufferSize) (Clear ctx bufferSize) l steps)
    (hrun : OpenSles.run ctx s steps = .ok t) :
    ∃ l', t.Follows ctx bufferSize (steps.foldl (Fifo.next ctx.submitSize) f) l' := by
  induction steps generalizing s f l with
  | nil =>
    cases hrun
    exact ⟨l, h⟩
  | cons a steps ih =>
    cases hstep : OpenSles.step ctx s a with
    | error e =>
      rw [OpenSles.run, runM_cons_error _ hstep] at hrun
      cases hrun
    | ok u =>
      rw [OpenSles.run, runM_cons_ok _ hstep] at hrun
      obtain ⟨hw, hwhole⟩ := (along_cons rfl).mp hwhole
      obtain ⟨hc, hclear⟩ := (along_cons rfl).mp hclear
      exact ih (h.step hquarter (step_ok h.bounded hstep) hw hc) hwhole hclear hrun

end

/-- **Main.** In every run from a new voice in which writes commit what they filled in and every
step is clear by the ledger: what is heard are the chunks that the callbacks took from the queue of
committed bytes, each with zeros where the queue ran out; and chunks and queue are all that was
committed, in order. -/
theorem ring_stream {ctx : EngineContext} {bufferSize : ℕ} (hsize : 0 < bufferSize)
    (hquarter : 4 * ctx.submitSize ≤ bufferSize) {steps : List Step} {s : Session}
    (hrun : run ctx (start bufferSize) steps = .ok s)
    (hwhole : Along (Ledger.step ctx bufferSize) Whole .empty steps)
    (hclear : Along (Ledger.step ctx bufferSize) (Clear ctx bufferSize) .empty steps) :
    s.heard = (Fifo.after ctx.submitSize steps).heard ctx.submitSize ∧
      (Fifo.after ctx.submitSize steps).committed =
        (Fifo.after ctx.submitSize steps).chunks.flatten ++
          (Fifo.after ctx.submitSize steps).queue := by
  obtain ⟨l, hfollows⟩ := (start_follows ctx hsize).run hquarter hwhole hclear hrun
  exact ⟨hfollows.streams.heard, Fifo.after_committed _ _⟩

/-- A ring of thirty-six bytes that are played by eight. -/
def echoContext : EngineContext where
  submitSize := 8
  ulong := 2 ^ 32

/-- One write, played, and silence after it, until the reader comes to the overflow. -/
def echoSteps : List Step :=
  [.lock 8, .fill [1, 2, 3, 4, 5, 6, 7, 8], .unlock 8, .callback, .callback, .callback, .callback,
    .callback]

/-- A write over the end of the ring, and the callback in between. -/
def erasedSteps : List Step :=
  [.callback, .callback, .callback, .lock 8, .fill [1, 2, 3, 4, 5, 6, 7, 8], .callback, .unlock 8,
    .callback]

/-- Four bytes of a write are heard again out of the overflow, and the second half of a write is
erased there before it is copied to the start of the ring. -/
theorem ring_echoes_and_erases :
    (∃ s, run echoContext (start 36) echoSteps = .ok s ∧
      s.heard = [1, 2, 3, 4, 5, 6, 7, 8] ++ List.replicate 28 0 ++ [1, 2, 3, 4] ∧
      (Fifo.after 8 echoSteps).committed = [1, 2, 3, 4, 5, 6, 7, 8]) ∧
    ∃ s, run smallContext (start 16) erasedSteps = .ok s ∧
      s.heard = List.replicate 12 0 ++ [1, 2, 3, 4] ++ List.replicate 4 0 ∧
      (Fifo.after 4 erasedSteps).committed = [1, 2, 3, 4, 5, 6, 7, 8] ∧
      (s.committed, s.played) = (20, 20) :=
  ⟨⟨_, rfl, rfl, rfl⟩, _, rfl, rfl, rfl, rfl⟩

/-- A write that is played while the next one is filled in, up to the end of the ring. -/
def smallSteps : List Step :=
  [.lock 8, .fill [1, 2, 3, 4, 5, 6, 7, 8], .unlock 8, .callback, .lock 8,
    .fill [9, 10, 11, 12, 13, 14, 15, 16], .callback, .unlock 8, .callback, .callback]

theorem ring_stream_small :
    ∃ s, run smallContext (start 16) smallSteps = .ok s ∧
      s.heard = (Fifo.after 4 smallSteps).heard 4 ∧
        (Fifo.after 4 smallSteps).committed =
          (Fifo.after 4 smallSteps).chunks.flatten ++ (Fifo.after 4 smallSteps).queue := by
  have hwhole : Along (Ledger.step smallContext 16) Whole .empty smallSteps := by
    refine (along_cons rfl).mpr ⟨trivial, (along_cons rfl).mpr ⟨trivial, (along_cons rfl).mpr ⟨?_,
      (along_cons rfl).mpr ⟨trivial, (along_cons rfl).mpr ⟨trivial, (along_cons rfl).mpr ⟨trivial,
      (along_cons rfl).mpr ⟨trivial, (along_cons rfl).mpr ⟨?_, (along_cons rfl).mpr ⟨trivial,
      (along_cons rfl).mpr ⟨trivial, along_nil _⟩⟩⟩⟩⟩⟩⟩⟩⟩⟩
    · exact (rfl : 8 = 8)
    · exact (rfl : 8 = 8)
  have hclear : Along (Ledger.step smallContext 16) (Clear smallContext 16) .empty smallSteps := by
    refine (along_cons rfl).mpr ⟨?_, (along_cons rfl).mpr ⟨trivial, (along_cons rfl).mpr ⟨?_,
      (along_cons rfl).mpr ⟨?_, (along_cons rfl).mpr ⟨?_, (along_cons rfl).mpr ⟨trivial,
      (along_cons rfl).mpr ⟨?_, (along_cons rfl).mpr ⟨?_, (along_cons rfl).mpr ⟨?_,
      (along_cons rfl).mpr ⟨?_, along_nil _⟩⟩⟩⟩⟩⟩⟩⟩⟩⟩
    · exact (by decide : 0 ≠ 0 + 16)
    · exact (by decide : (0 + 8) / 16 < 2 ^ 32)
    · exact Clear.plenty (by decide : 0 + 4 ≤ 8) (by decide : (0 + 4) / 16 < 2 ^ 32)
    · exact (by decide : 8 ≠ 4 + 16)
    · exact Clear.plenty (by decide : 4 + 4 ≤ 8) (by decide : (4 + 4) / 16 < 2 ^ 32)
    · exact (by decide : (8 + 8) / 16 < 2 ^ 32)
    · exact Clear.plenty (by decide : 8 + 4 ≤ 16) (by decide : (8 + 4) / 16 < 2 ^ 32)
    · exact Clear.plenty (by decide : 12 + 4 ≤ 16) (by decide : (12 + 4) / 16 < 2 ^ 32)
  exact ⟨_, rfl, ring_stream (by decide) (by decide) rfl hwhole hclear⟩

end Apple2ix.OpenSles
