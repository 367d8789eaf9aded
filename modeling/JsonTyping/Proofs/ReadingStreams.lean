import JsonTyping.Json.Document
import Mathlib.Data.List.Basic

/-!
# Streams of the reader

The reader meets events only where they belong: at every byte of a text, the events so far assemble
to containers, and these are the containers that the reader takes to be open
(`Json.Reader.sound_foldl`). So a reader that comes to the end of a text without a fault has met the
events of one value (`Json.readEvents_wellFormed`).
-/

namespace JsonTyping.Json

namespace Partial

def kind : Partial → Container
  | .array _ => .array
  | .object _ _ => .object

/-- A value may come next in the container. -/
def Accepts : Partial → Prop
  | .array _ => True
  | .object _ key => key.isSome

end Partial

namespace Assembly

/-- Containers of these kinds are open, and a value may come next. -/
structure Ready (kinds : List Container) (a : Assembly) : Prop where
  kinds : a.enclosing.map Partial.kind = kinds
  accepts : ∀ p ∈ a.enclosing, p.Accepts
  unfinished : a.result = none

/-- Containers of these kinds are open, and the innermost one may end. Without one, the value is
there. -/
def Settled : List Container → Assembly → Prop
  | [], a => a.enclosing = [] ∧ a.result.isSome
  | .array :: outer, a =>
    ∃ items rest, a.enclosing = .array items :: rest ∧ Ready outer ⟨rest, a.result⟩
  | .object :: outer, a =>
    ∃ members rest, a.enclosing = .object members none :: rest ∧ Ready outer ⟨rest, a.result⟩

variable {a : Assembly} {kinds outer : List Container}

theorem ready_start : Ready [] start := ⟨rfl, nofun, rfl⟩

theorem Ready.opened (h : Ready kinds a) {p : Partial} (hp : p.Accepts) :
    Ready (p.kind :: kinds) { a with enclosing := p :: a.enclosing } where
  kinds := congrArg (p.kind :: ·) h.kinds
  accepts := List.forall_mem_cons.2 ⟨hp, h.accepts⟩
  unfinished := h.unfinished

/-- Where a value may come, it is taken. -/
theorem Ready.put (h : Ready kinds a) (v : Json) : ∃ a', a.put v = some a' ∧ Settled kinds a' := by
  obtain ⟨enclosing, result⟩ := a
  obtain ⟨rfl, haccepts, hresult⟩ := h
  change result = none at hresult
  subst hresult
  cases enclosing with
  | nil => exact ⟨_, rfl, rfl, rfl⟩
  | cons p rest =>
    obtain ⟨hp, hrest⟩ := List.forall_mem_cons.1 haccepts
    have houter : Ready (rest.map Partial.kind) ⟨rest, none⟩ := ⟨rfl, hrest, rfl⟩
    cases p with
    | array items => exact ⟨_, rfl, _, _, rfl, houter⟩
    | object members key =>
      obtain ⟨name, rfl⟩ := Option.isSome_iff_exists.1 hp
      exact ⟨_, rfl, _, _, rfl, houter⟩

theorem Settled.ready (h : Settled (.array :: outer) a) : Ready (.array :: outer) a := by
  obtain ⟨items, rest, henclosing, houter⟩ := h
  obtain ⟨enclosing, result⟩ := a
  change enclosing = _ at henclosing
  subst henclosing
  exact houter.opened (p := .array items) trivial

theorem Settled.feed_endArray (h : Settled (.array :: outer) a) :
    ∃ a', a.feed .endArray = some a' ∧ Settled outer a' := by
  obtain ⟨items, rest, henclosing, houter⟩ := h
  obtain ⟨a', hput, hsettled⟩ := houter.put (.array items.reverse)
  refine ⟨a', ?_, hsettled⟩
  rw [feed, henclosing]
  exact hput

theorem Settled.feed_endObject (h : Settled (.object :: outer) a) :
    ∃ a', a.feed .endObject = some a' ∧ Settled outer a' := by
  obtain ⟨members, rest, henclosing, houter⟩ := h
  obtain ⟨a', hput, hsettled⟩ := houter.put (.object members.reverse)
  refine ⟨a', ?_, hsettled⟩
  rw [feed, henclosing]
  exact hput

theorem Settled.feed_key (h : Settled (.object :: outer) a) (name : String) :
    ∃ a', a.feed (.key name) = some a' ∧ Ready (.object :: outer) a' := by
  obtain ⟨members, rest, henclosing, houter⟩ := h
  refine ⟨{ a with enclosing := .object members (some name) :: rest }, ?_, ?_⟩
  · rw [feed, henclosing]
  · exact houter.opened (p := .object members (some name)) rfl

end Assembly

/-! ### Readers -/

open Assembly

/-- An event that is a value of its own. -/
def IsScalar (e : Event) : Prop := ∃ v, ∀ a : Assembly, a.feed e = a.put v

/-- What the reader is about to read may come next. -/
def Mode.Fits (mode : Mode) (kinds : List Container) (a : Assembly) : Prop :=
  match mode with
  | .value | .number .. | .string false .. => Ready kinds a
  | .literal event _ _ => Ready kinds a ∧ IsScalar event
  | .firstItem | .itemEnd | .nextItem => ∃ outer, kinds = .array :: outer ∧ Settled kinds a
  | .firstKey | .memberEnd | .nextKey | .string true .. =>
    ∃ outer, kinds = .object :: outer ∧ Settled kinds a
  | .colon => ∃ outer, kinds = .object :: outer ∧ Ready kinds a
  | .done => kinds = [] ∧ Settled kinds a
  | .failed _ => True

namespace Reader

/-- What the events so far assemble to. -/
def assembled (r : Reader) : Option Assembly :=
  (r.events.reverse.map (·.event)).foldlM Assembly.feed .start

/-- The events so far assemble, and the reader reads what may come next. -/
def Sound (r : Reader) : Prop := ∃ a, r.assembled = some a ∧ r.mode.Fits r.enclosing a

variable {r : Reader} {a a' : Assembly}

theorem assembled_emit (h : r.assembled = some a) {event : Event}
    (hfeed : a.feed event = some a') (start stop : Nat) :
    (r.emit event start stop).assembled = some a' := by
  unfold assembled at h ⊢
  rw [emit, List.reverse_cons, List.map_append, List.foldlM_append, h]
  exact (Option.bind_some ..).trans ((List.foldlM_cons ..).trans (by rw [hfeed]; rfl))

theorem sound_fail (h : r.assembled = some a) (problem : Problem) (offset : Nat) (site : Site) :
    (r.fail problem offset site).Sound :=
  ⟨a, h, trivial⟩

theorem Sound.fail (h : r.Sound) (problem : Problem) (offset : Nat) (site : Site) :
    (r.fail problem offset site).Sound := by
  obtain ⟨a, ha, -⟩ := h
  exact sound_fail ha problem offset site

/-- After a value, the innermost container may go on or end. -/
theorem sound_afterValue (h : r.assembled = some a) (ha : Settled r.enclosing a) :
    r.afterValue.Sound := by
  obtain ⟨mode, enclosing, offset, events⟩ := r
  refine ⟨a, h, ?_⟩
  cases enclosing with
  | nil => exact ⟨rfl, ha⟩
  | cons kind outer =>
    cases kind with
    | array => exact ⟨outer, rfl, ha⟩
    | object => exact ⟨outer, rfl, ha⟩

/-- A scalar is read where a value may come. -/
theorem sound_scalar (h : r.assembled = some a) (ha : Ready r.enclosing a) {event : Event}
    (hevent : IsScalar event) (start stop : Nat) :
    (r.emit event start stop).afterValue.Sound := by
  obtain ⟨v, hv⟩ := hevent
  obtain ⟨a', hput, hsettled⟩ := ha.put v
  exact sound_afterValue (assembled_emit h ((hv a).trans hput) start stop) hsettled

theorem sound_openContainer (h : r.assembled = some a) {p : Partial} {event : Event} {mode : Mode}
    (hfeed : a.feed event = some { a with enclosing := p :: a.enclosing })
    (hmode : mode.Fits (p.kind :: r.enclosing) { a with enclosing := p :: a.enclosing }) :
    (r.openContainer p.kind event mode).Sound := by
  unfold openContainer
  split
  · exact ⟨_, assembled_emit h hfeed r.offset (r.offset + 1), hmode⟩
  · exact sound_fail h _ _ _

theorem sound_openArray (h : r.assembled = some a) (ha : Ready r.enclosing a) :
    (r.openContainer .array .beginArray .firstItem).Sound :=
  sound_openContainer (p := .array []) h rfl ⟨r.enclosing, rfl, [], a.enclosing, rfl, ha⟩

theorem sound_openObject (h : r.assembled = some a) (ha : Ready r.enclosing a) :
    (r.openContainer .object .beginObject .firstKey).Sound :=
  sound_openContainer (p := .object [] none) h rfl ⟨r.enclosing, rfl, [], a.enclosing, rfl, ha⟩

theorem sound_closeContainer (h : r.assembled = some a) {kind : Container}
    {outer : List Container} (hkind : r.enclosing = kind :: outer) {event : Event}
    (hfeed : ∃ a', a.feed event = some a' ∧ Settled outer a') :
    (r.closeContainer event).Sound := by
  obtain ⟨a', ha', hsettled⟩ := hfeed
  refine sound_afterValue (assembled_emit h ha' r.offset (r.offset + 1)) ?_
  change Settled (r.enclosing.drop 1) a'
  rw [hkind]
  exact hsettled

/-- At the first character of a value. -/
theorem sound_beginValue (h : r.assembled = some a) (ha : Ready r.enclosing a) (c : Char) :
    (r.beginValue c).Sound := by
  unfold beginValue
  split
  · exact ⟨a, h, ha, .null, fun _ => rfl⟩
  · exact ⟨a, h, ha, .bool true, fun _ => rfl⟩
  · exact ⟨a, h, ha, .bool false, fun _ => rfl⟩
  · exact ⟨a, h, ha⟩
  · exact ⟨a, h, ha⟩
  · exact sound_openArray h ha
  · exact sound_openObject h ha
  · split
    · exact ⟨a, h, ha⟩
    · exact ⟨a, h, ha⟩
    · exact sound_fail h _ _ _

/-- Between two parts of a text. -/
theorem Sound.between (h : r.Sound) (c : Char) : (r.between c).Sound := by
  obtain ⟨a, ha, hfits⟩ := h
  obtain ⟨mode, enclosing, offset, events⟩ := r
  unfold Reader.between
  split
  · exact ⟨a, ha, hfits⟩
  cases mode with
  | value => exact sound_beginValue ha hfits c
  | firstItem =>
    obtain ⟨outer, rfl, hsettled⟩ := hfits
    dsimp only
    split
    · exact sound_closeContainer ha rfl hsettled.feed_endArray
    · exact sound_beginValue ha hsettled.ready c
  | itemEnd =>
    obtain ⟨outer, rfl, hsettled⟩ := hfits
    dsimp only
    split
    · exact sound_closeContainer ha rfl hsettled.feed_endArray
    · split
      · exact ⟨a, ha, outer, rfl, hsettled⟩
      · exact sound_fail ha _ _ _
  | nextItem =>
    obtain ⟨outer, rfl, hsettled⟩ := hfits
    dsimp only
    split
    · exact sound_fail ha _ _ _
    · exact sound_beginValue ha hsettled.ready c
  | firstKey =>
    obtain ⟨outer, rfl, hsettled⟩ := hfits
    dsimp only
    split
    · exact sound_closeContainer ha rfl hsettled.feed_endObject
    · split
      · exact ⟨a, ha, outer, rfl, hsettled⟩
      · exact sound_fail ha _ _ _
  | memberEnd =>
    obtain ⟨outer, rfl, hsettled⟩ := hfits
    dsimp only
    split
    · exact sound_closeContainer ha rfl hsettled.feed_endObject
    · split
      · exact ⟨a, ha, outer, rfl, hsettled⟩
      · exact sound_fail ha _ _ _
  | nextKey =>
    obtain ⟨outer, rfl, hsettled⟩ := hfits
    dsimp only
    split
    · exact sound_fail ha _ _ _
    · split
      · exact ⟨a, ha, outer, rfl, hsettled⟩
      · exact sound_fail ha _ _ _
  | colon =>
    obtain ⟨outer, rfl, hready⟩ := hfits
    dsimp only
    split
    · exact ⟨a, ha, hready⟩
    · exact sound_fail ha _ _ _
  | done => exact sound_fail ha _ _ _
  | _ => exact ⟨a, ha, hfits⟩

/-- A string, or a key, that is read on. -/
theorem Sound.goOn (h : r.Sound) {asKey : Bool} {start : Nat} {bytes : List UInt8}
    {escape : Escape} (hmode : r.mode = .string asKey start bytes escape) (bytes' : List UInt8)
    (escape' : Escape) : Sound { r with mode := .string asKey start bytes' escape' } := by
  obtain ⟨a, ha, hfits⟩ := h
  rw [hmode] at hfits
  refine ⟨a, ha, ?_⟩
  cases asKey <;> exact hfits

theorem Sound.endString (h : r.Sound) {asKey : Bool} {start : Nat} {bytes : List UInt8}
    {escape : Escape} (hmode : r.mode = .string asKey start bytes escape) :
    (r.endString asKey start bytes).Sound := by
  unfold Reader.endString
  split
  · exact h.fail _ _ _
  · next text _ =>
    obtain ⟨a, ha, hfits⟩ := h
    rw [hmode] at hfits
    cases asKey with
    | true =>
      obtain ⟨outer, houter, hsettled⟩ := hfits
      rw [houter] at hsettled
      obtain ⟨a', hkey, hready⟩ := hsettled.feed_key text
      exact ⟨a', assembled_emit ha hkey start (r.offset + 1), outer, houter, houter ▸ hready⟩
    | false => exact sound_scalar ha hfits ⟨.string text, fun _ => rfl⟩ _ _

theorem Sound.endDigits (h : r.Sound) {asKey : Bool} {start : Nat} {bytes : List UInt8}
    {escape : Escape} (hmode : r.mode = .string asKey start bytes escape) (high : Option Nat)
    (chars : List Char) : (r.endDigits asKey start bytes high chars).Sound := by
  unfold Reader.endDigits
  dsimp only
  split
  · exact h.fail _ _ _
  · split
    · exact h.fail _ _ _
    · split <;> exact h.goOn hmode _ _
  · split
    · exact h.goOn hmode _ _
    · exact h.fail _ _ _

theorem Sound.inString (h : r.Sound) {asKey : Bool} {start : Nat} {bytes : List UInt8}
    {escape : Escape} (hmode : r.mode = .string asKey start bytes escape) (b : UInt8) :
    (r.inString asKey start bytes escape b).Sound := by
  unfold Reader.inString
  dsimp only
  split
  · split
    · exact h.endString hmode
    · split
      · exact h.goOn hmode _ _
      · split
        · exact h.fail _ _ _
        · exact h.goOn hmode _ _
  · split
    · exact h.goOn hmode _ _
    · split
      · exact h.goOn hmode _ _
      · exact h.fail _ _ _
  · split
    · exact h.goOn hmode _ _
    · exact h.endDigits hmode _ _
  · split
    · exact h.goOn hmode _ _
    · exact h.fail _ _ _
  · split
    · exact h.goOn hmode _ _
    · exact h.fail _ _ _

theorem Sound.endNumber (h : r.Sound) {state : NumberState} {start : Nat}
    (hmode : r.mode = .number state start) (result : Except Problem Number) :
    (r.endNumber start result).Sound := by
  obtain ⟨a, ha, hfits⟩ := h
  rw [hmode] at hfits
  cases result with
  | ok n => exact sound_scalar ha hfits ⟨.number n, fun _ => rfl⟩ _ _
  | error p => exact sound_fail ha _ _ _

/-! ### Whole texts -/

/-- One byte. -/
theorem Sound.react (h : r.Sound) (b : UInt8) : (r.react b).Sound := by
  unfold Reader.react
  dsimp only
  split
  · exact h
  · next event start rest hmode =>
    obtain ⟨a, ha, hfits⟩ := h
    rw [hmode] at hfits
    obtain ⟨hready, hevent⟩ := hfits
    split
    · exact sound_scalar ha hready hevent _ _
    · split
      · exact sound_scalar ha hready hevent _ _
      · exact sound_fail ha _ _ _
    · split
      · exact ⟨a, ha, hready, hevent⟩
      · exact sound_fail ha _ _ _
  · next state start hmode =>
    split
    · obtain ⟨a, ha, hfits⟩ := h
      rw [hmode] at hfits
      exact ⟨a, ha, hfits⟩
    · exact h.fail _ _ _
    · next result _ => exact (h.endNumber hmode result).between _
  · next hmode => exact h.inString hmode b
  · exact h.between _

theorem Sound.feed (h : r.Sound) (b : UInt8) : (r.feed b).Sound := by
  obtain ⟨a, ha, hfits⟩ := h.react b
  exact ⟨a, ha, hfits⟩

/-- At every byte of a text, what the reader is about to read may come next. -/
theorem sound_foldl (bytes : List UInt8) : (bytes.foldl Reader.feed .start).Sound := by
  have hfold : ∀ (bytes : List UInt8) (r : Reader), r.Sound →
      (bytes.foldl Reader.feed r).Sound := by
    intro bytes
    induction bytes with
    | nil => exact fun r h => h
    | cons b bytes ih => exact fun r h => ih (r.feed b) (h.feed b)
  exact hfold bytes .start ⟨.start, rfl, ready_start⟩

/-- A number that ends with the text ends a value. -/
theorem mode_endNumber (r : Reader) (start : Nat) (result : Except Problem Number) :
    (∃ fault, (r.endNumber start result).mode = .failed fault) ∨
      (r.endNumber start result).mode = .done ∨ (r.endNumber start result).mode = .itemEnd ∨
        (r.endNumber start result).mode = .memberEnd := by
  obtain ⟨mode, enclosing, offset, events⟩ := r
  cases result with
  | error p => exact .inl ⟨_, rfl⟩
  | ok n =>
    rcases enclosing with _ | ⟨_ | _, outer⟩
    · exact .inr (.inl rfl)
    · exact .inr (.inr (.inl rfl))
    · exact .inr (.inr (.inr rfl))

/-- At the end of a text the reader is done, or it has met a fault. -/
theorem Sound.finish (h : r.Sound) :
    r.finish.Sound ∧ (r.finish.mode = .done ∨ ∃ fault, r.finish.mode = .failed fault) := by
  obtain ⟨mode, enclosing, offset, events⟩ := r
  cases mode with
  | done => exact ⟨h, .inl rfl⟩
  | failed fault => exact ⟨h, .inr ⟨fault, rfl⟩⟩
  | number state start =>
    have hnumber := h.endNumber rfl state.finish
    have hmode := mode_endNumber ⟨.number state start, enclosing, offset, events⟩ start state.finish
    unfold Reader.finish
    dsimp only
    split
    · exact ⟨hnumber.fail _ _ _, .inr ⟨_, rfl⟩⟩
    · exact ⟨hnumber.fail _ _ _, .inr ⟨_, rfl⟩⟩
    · next hitem hmember =>
      refine ⟨hnumber, ?_⟩
      rcases hmode with hfailed | hdone | hmode | hmode
      · exact .inr hfailed
      · exact .inl hdone
      · exact absurd hmode hitem
      · exact absurd hmode hmember
  | _ => exact ⟨h.fail _ _ _, .inr ⟨_, rfl⟩⟩

end Reader

/-- The events of any text assemble, up to its fault if it has one. Without a fault they are those
of one value. -/
theorem readEvents_wellFormed (bytes : List UInt8) :
    ∃ a, ((readEvents bytes).events.map (·.event)).foldlM Assembly.feed .start = some a ∧
      ((readEvents bytes).fault = none → a.enclosing = [] ∧ ∃ v, a.result = some v) := by
  obtain ⟨⟨a, ha, hfits⟩, hends⟩ := (Reader.sound_foldl bytes).finish
  refine ⟨a, ha, fun hfault => ?_⟩
  rcases hends with hdone | ⟨fault, hfailed⟩
  · rw [hdone] at hfits
    obtain ⟨hnone, hsettled⟩ := hfits
    rw [hnone] at hsettled
    exact ⟨hsettled.1, Option.isSome_iff_exists.1 hsettled.2⟩
  · rw [readEvents] at hfault
    dsimp only at hfault
    rw [hfailed] at hfault
    cases hfault

/-- A text has a value, or else a fault is found in it. -/
theorem readBytes_cases (bytes : List UInt8) :
    (∃ v, readBytes bytes = .ok v ∧ (readEvents bytes).fault = none) ∨
      ∃ fault, readBytes bytes = .error ⟨bytes, fault⟩ ∧ (readEvents bytes).fault = some fault := by
  obtain ⟨a, ha, hvalue⟩ := readEvents_wellFormed bytes
  cases hfault : (readEvents bytes).fault with
  | some fault =>
    refine .inr ⟨fault, ?_, rfl⟩
    rw [readBytes]
    simp only [hfault]
  | none =>
    obtain ⟨hclosed, v, hv⟩ := hvalue hfault
    have hread : ofEvents? ((readEvents bytes).events.map (·.event)) = some v := by
      rw [ofEvents?, ha]
      exact (if_pos (by rw [hclosed]; rfl)).trans hv
    refine .inl ⟨v, ?_, rfl⟩
    rw [readBytes]
    simp only [hfault, hread]

end JsonTyping.Json
