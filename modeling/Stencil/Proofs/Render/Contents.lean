import Stencil.Render.Output
import Stencil.Render.Scope

/-!
# What scopes and outputs hold

The values in the scopes of a template and the texts in its output, and what the operations on them
add.

* `Scopes.All V ss` says that the data and the variables of all scopes have `V`.
* `Output.All W o` says that the root text and all captured texts have `W`; a written text keeps this
  if `W` passes to texts one after the other.
-/

namespace Stencil

namespace Scopes

variable {V : Value → Prop} {ss : Scopes} {name : String} {v : Value}

/-- All values in the scopes have a property. -/
def All (V : Value → Prop) (ss : Scopes) : Prop :=
  ∀ s ∈ ss, V s.dot ∧ ∀ b ∈ s.bindings, V b.2

theorem All.cons {s : Scope} (h : All V (s :: ss)) :
    (V s.dot ∧ ∀ b ∈ s.bindings, V b.2) ∧ All V ss :=
  ⟨h s (by simp), fun t ht => h t (by simp [ht])⟩

theorem all_cons {s : Scope} (hs : V s.dot ∧ ∀ b ∈ s.bindings, V b.2) (h : All V ss) :
    All V (s :: ss) := by
  intro t ht
  rcases List.mem_cons.1 ht with rfl | ht
  · exact hs
  · exact h t ht

theorem all_start (hv : V v) : All V (start v) :=
  all_cons ⟨hv, by simpa using hv⟩ fun _ h => nomatch h

theorem All.push (h : All V ss) (hv : V v) : All V (push v ss) := all_cons ⟨hv, by simp⟩ h

theorem All.tail (h : All V ss) : All V ss.tail := fun s hs => h s (List.mem_of_mem_tail hs)

theorem All.dot (h : All V ss) (hu : V .undefined) : V (dot ss) := by
  cases ss with
  | nil => exact hu
  | cons s ss => exact h.cons.1.1

theorem All.declare (h : All V ss) (hv : V v) : All V (declare name v ss) := by
  cases ss with
  | nil => exact h
  | cons s ss =>
    obtain ⟨⟨hdot, hb⟩, hss⟩ := h.cons
    exact all_cons ⟨hdot, by simpa using ⟨hv, fun n u hu => hb (n, u) hu⟩⟩ hss

theorem all_setFirst? {bs bs' : List (String × Value)} (h : setFirst? name v bs = some bs')
    (hb : ∀ b ∈ bs, V b.2) (hv : V v) : ∀ b ∈ bs', V b.2 := by
  induction bs generalizing bs' with
  | nil => cases h
  | cons b bs ih =>
    obtain ⟨n, w⟩ := b
    rw [List.forall_mem_cons] at hb
    simp only [setFirst?] at h
    split at h
    · cases h
      exact List.forall_mem_cons.2 ⟨hv, hb.2⟩
    · obtain ⟨ds, hds, rfl⟩ := Option.map_eq_some_iff.1 h
      exact List.forall_mem_cons.2 ⟨hb.1, ih hds hb.2⟩

theorem All.assign? {ss' : Scopes} (h : All V ss) (hv : V v) (he : assign? name v ss = some ss') :
    All V ss' := by
  induction ss generalizing ss' with
  | nil => cases he
  | cons s ss ih =>
    obtain ⟨⟨hdot, hb⟩, hss⟩ := h.cons
    simp only [Scopes.assign?] at he
    split at he
    · next bs hbs =>
      cases he
      exact all_cons ⟨hdot, all_setFirst? hbs hb hv⟩ hss
    · obtain ⟨ts, hts, rfl⟩ := Option.map_eq_some_iff.1 he
      exact all_cons ⟨hdot, hb⟩ (ih hss hts)

theorem all_first? {bs : List (String × Value)} (hb : ∀ b ∈ bs, V b.2)
    (h : first? name bs = some v) : V v := by
  induction bs with
  | nil => cases h
  | cons b bs ih =>
    obtain ⟨n, w⟩ := b
    rw [List.forall_mem_cons] at hb
    simp only [first?] at h
    split at h
    · cases h
      exact hb.1
    · exact ih hb.2 h

theorem All.lookup? (h : All V ss) (he : lookup? name ss = some v) : V v := by
  induction ss with
  | nil => cases he
  | cons s ss ih =>
    obtain ⟨⟨-, hb⟩, hss⟩ := h.cons
    rw [Scopes.lookup?, Option.or_eq_some_iff] at he
    rcases he with he | ⟨-, he⟩
    · exact all_first? hb he
    · exact ih hss he

end Scopes

namespace Output

variable {W : String → Prop} {o : Output}

/-- All captured texts of some frames have a property. -/
def AllFrames (W : String → Prop) (fs : List Frame) : Prop :=
  ∀ slot kind text, Frame.capture slot kind text ∈ fs → W text

/-- The root text and all captured texts have a property. -/
def All (W : String → Prop) (o : Output) : Prop := W o.root ∧ AllFrames W o.frames

theorem AllFrames.cons {f : Frame} {fs : List Frame} (h : AllFrames W (f :: fs)) :
    (∀ slot kind text, f = .capture slot kind text → W text) ∧ AllFrames W fs :=
  ⟨fun slot kind text hf => h slot kind text (by simp [hf]),
    fun slot kind text hf => h slot kind text (List.mem_cons_of_mem _ hf)⟩

theorem allFrames_cons {f : Frame} {fs : List Frame}
    (hf : ∀ slot kind text, f = .capture slot kind text → W text) (h : AllFrames W fs) :
    AllFrames W (f :: fs) := by
  intro slot kind text hm
  rcases List.mem_cons.1 hm with hm | hm
  · exact hf slot kind text hm.symm
  · exact h slot kind text hm

theorem all_empty (h : W "") : All W {} := ⟨h, fun _ _ _ hf => nomatch hf⟩

theorem AllFrames.writeFrames (happ : ∀ s t, W s → W t → W (s ++ t)) {text : String} (ht : W text) :
    ∀ {fs fs' : List Frame}, AllFrames W fs → writeFrames text fs = some fs' → AllFrames W fs'
  | [], _, _, he => nomatch he
  | .capture slot kind s :: fs, _, h, he => by
    cases he
    obtain ⟨hf, hfs⟩ := h.cons
    refine allFrames_cons (fun slot' kind' u hu => ?_) hfs
    cases hu
    exact happ s text (hf slot kind s rfl) ht
  | .discard :: fs, _, h, he => by
    cases he
    exact h
  | .through :: fs, _, h, he => by
    obtain ⟨gs, hgs, rfl⟩ := Option.map_eq_some_iff.1 he
    exact allFrames_cons (fun _ _ _ hu => nomatch hu) (writeFrames happ ht h.cons.2 hgs)

theorem All.write (happ : ∀ s t, W s → W t → W (s ++ t)) (h : All W o) {text : String}
    (ht : W text) : All W (o.write text) := by
  unfold Output.write
  split
  · next fs hfs => exact ⟨h.1, h.2.writeFrames happ ht hfs⟩
  · split
    · exact h
    · exact ⟨happ _ _ h.1 ht, h.2⟩

theorem All.push (h : All W o) {f : Frame} (hf : ∀ slot kind text, f = .capture slot kind text → W text) :
    All W (o.push f) :=
  ⟨h.1, allFrames_cons hf h.2⟩

theorem All.pop (h : All W o) : All W o.pop.2 := by
  unfold Output.pop
  split
  · exact h
  · next f fs hfs =>
    have hframes := h.2
    rw [hfs] at hframes
    exact ⟨h.1, hframes.cons.2⟩

/-- The text of a capture that is closed is one of those that the output held. -/
theorem All.popped (h : All W o) {slot : String} {kind : BlockKind} {text : String}
    (hp : o.pop.1 = some (.capture slot kind text)) : W text := by
  unfold Output.pop at hp
  split at hp
  · cases hp
  · next f fs hfs =>
    cases hp
    exact h.2 slot kind text (by simp [hfs])

end Output

end Stencil
