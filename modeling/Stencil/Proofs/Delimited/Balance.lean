import Stencil.Proofs.Delimited.Faults

/-!
# Segments in which all blocks are closed

What stands in a branch is compiled without a look at what is open around it, if every block that is
opened there is closed there.

* `step` compiles one segment, and `walk` some of them; `compile_append` says that compiling goes on
  where a walk has come to.
* `openAfter n segments` counts the blocks that are open behind some segments, of `n` that were open
  before them; there is no number if they touch another block.
* `compile_body` says that segments that leave no block open, and touch no other, are compiled alike
  in all open frames.
-/

namespace Stencil.Delimited

/-! ## Segment by segment -/

/-- Compiles a segment inside the open frames, after some definitions, the latest first. -/
def step (frames : List Frame) (done : List Definition) :
    Segment → Build (List Frame × List Definition)
  | .text s => do
    Build.text (String.ofList s)
    return (frames, done)
  | .action statement line =>
    match Keyword.of statement with
    | .finish => do
      let (frames, ended) ← closeFrame frames
      return (frames, ended.toList ++ done)
    | .otherwise rest => do
      let frames ← elseFrame rest line frames
      return (frames, done)
    | .branch b subject => do
      let p ← Build.pipeline subject line
      let f ← openFrame (.branch b p false none) line
      return (f :: frames, done)
    | .define subject => do
      let p ← Build.pipeline subject line
      match definedName? p with
      | none => fail line .namelessDefine
      | some name =>
        let f ← openFrame (.define name (← get).context) line
        modify fun s => { s with context := .body }
        return (f :: frames, done)
    | .action => do
      Build.action statement line
      return (frames, done)

/-- Compiles some segments, and gives the frames and the definitions behind them. -/
def walk (frames : List Frame) (done : List Definition) :
    List Segment → Build (List Frame × List Definition)
  | [] => return (frames, done)
  | segment :: segments => do
    let (frames, done) ← step frames done segment
    walk frames done segments

variable {frames inner : List Frame} {done ds : List Definition}

theorem compile_cons (segment : Segment) (segments : List Segment) :
    compile frames done (segment :: segments) =
      step frames done segment >>= fun r => compile r.1 r.2 segments := by
  cases segment with
  | text s => simp [compile, step]
  | action statement line =>
    simp only [compile, step]
    cases Keyword.of statement with
    | finish => simp
    | otherwise rest => simp
    | branch b subject => simp
    | define subject =>
      simp only [bind_assoc]
      refine bind_congr fun p => ?_
      cases definedName? p with
      | none => rfl
      | some name => simp
    | action => simp

/-- Compiling goes on where a walk has come to. -/
theorem compile_append (segments rest : List Segment) : ∀ (frames : List Frame) (done : List Definition),
    compile frames done (segments ++ rest) =
      walk frames done segments >>= fun r => compile r.1 r.2 rest := by
  induction segments with
  | nil => exact fun _ _ => rfl
  | cons segment segments ih =>
    intro frames done
    rw [List.cons_append, compile_cons, walk, bind_assoc]
    exact bind_congr fun r => ih r.1 r.2

/-! ## Blocks -/

/-- The number of blocks that are open behind the segments, if they touch none but those that they open
and `n` others. -/
def openAfter : Nat → List Segment → Option Nat
  | n, [] => some n
  | n, .text _ :: segments => openAfter n segments
  | n, .action statement _ :: segments =>
    match Keyword.of statement, n with
    | .finish, 0 | .otherwise _, 0 => none
    | .finish, n + 1 => openAfter n segments
    | .branch .., n | .define _, n => openAfter (n + 1) segments
    | .otherwise _, n + 1 => openAfter (n + 1) segments
    | .action, n => openAfter n segments

/-- The frames are those of this many blocks: a chained branch is in the block of the frame below it. -/
inductive Blocks : List Frame → Nat → Prop
  | nil : Blocks [] 0
  | own {f : Frame} {fs : List Frame} {n : Nat} (hf : f.ownsEnd = true) (h : Blocks fs n) :
    Blocks (f :: fs) (n + 1)
  | chained {f : Frame} {fs : List Frame} {n : Nat} (hf : f.ownsEnd = false) (h : Blocks fs (n + 1)) :
    Blocks (f :: fs) (n + 1)

theorem Blocks.eq_nil (h : Blocks frames 0) : frames = [] := by
  cases h
  rfl

theorem Blocks.ne_nil {n : Nat} (h : Blocks frames (n + 1)) : ∃ f fs, frames = f :: fs := by
  cases h <;> exact ⟨_, _, rfl⟩

/-- The end of a block is the same in all open frames. -/
theorem closeFrame_append {n : Nat} (h : Blocks inner (n + 1)) (frames : List Frame) :
    closeFrame (inner ++ frames) = (fun r => (r.1 ++ frames, r.2)) <$> closeFrame inner := by
  -- The induction is on the frames of the last block, of which the lowest has the end.
  generalize hm : n + 1 = m at h
  induction h with
  | nil => cases hm
  | @own f fs n hf h =>
    obtain ⟨construct, line, outer⟩ := f
    cases construct with
    | branch b p chained body =>
      obtain rfl : chained = false := by simpa [Frame.ownsEnd] using hf
      simp [closeFrame]
    | define name context => simp [closeFrame]
  | @chained f fs n hf h ih =>
    obtain ⟨construct, line, outer⟩ := f
    cases construct with
    | branch b p chained body =>
      obtain rfl : chained = true := by simpa [Frame.ownsEnd] using hf
      simp [closeFrame, ih hm]
    | define name context => cases hf

theorem elseFrame_append (rest : List Char) (line : Nat) (f : Frame) (fs frames : List Frame) :
    elseFrame rest line (f :: fs ++ frames) = (· ++ frames) <$> elseFrame rest line (f :: fs) := by
  obtain ⟨construct, start, outer⟩ := f
  match construct with
  | .define _ _ => rfl
  | .branch _ _ _ (some _) => rfl
  | .branch b p chained none =>
    simp only [elseFrame, List.cons_append, map_bind]
    refine bind_congr fun b => ?_
    split
    · simp
    · cases chained? rest with
      | none => rfl
      | some clause => simp

/-- One segment is compiled alike in all open frames, if it touches only blocks of its own. -/
theorem step_append {n m : Nat} {segment : Segment} (h : Blocks inner n)
    (hm : openAfter n [segment] = some m) (frames : List Frame) (ds done : List Definition) :
    step (inner ++ frames) (ds ++ done) segment =
      (fun r => (r.1 ++ frames, r.2 ++ done)) <$> step inner ds segment := by
  cases segment with
  | text s => simp [step]
  | action statement line =>
    simp only [openAfter] at hm
    simp only [step]
    cases hkeyword : Keyword.of statement with
    | finish =>
      rw [hkeyword] at hm
      cases n with
      | zero => cases hm
      | succ n => simp [closeFrame_append h]
    | otherwise rest =>
      rw [hkeyword] at hm
      cases n with
      | zero => cases hm
      | succ n =>
        obtain ⟨f, fs, rfl⟩ := h.ne_nil
        have helse := elseFrame_append rest line f fs frames
        rw [List.cons_append] at helse
        simp [helse]
    | branch b subject => simp
    | define subject =>
      simp only [map_bind]
      refine bind_congr fun p => ?_
      cases definedName? p with
      | none => rfl
      | some name => simp
    | action => simp

theorem openFrame_opens (construct : Construct) (line : Nat) :
    Build.Ends (fun f => f.construct = construct) (fun _ => True) (openFrame construct line) :=
  .getState fun _ => .seq (.modifyState _) fun _ => .pure rfl

theorem closeFrame_blocks {n : Nat} (h : Blocks frames (n + 1)) :
    Build.Ends (fun r => Blocks r.1 n) (fun _ => True) (closeFrame frames) := by
  generalize hm : n + 1 = m at h
  induction h with
  | nil => cases hm
  | @own f fs m hf h =>
    cases hm
    obtain ⟨construct, line, outer⟩ := f
    cases construct with
    | branch b p chained body =>
      obtain rfl : chained = false := by simpa [Frame.ownsEnd] using hf
      exact .getState fun _ => .seq (.modifyState _) fun _ => .pure h
    | define name context => exact .getState fun _ => .seq (.modifyState _) fun _ => .pure h
  | @chained f fs m hf h ih =>
    obtain ⟨construct, line, outer⟩ := f
    cases construct with
    | branch b p chained body =>
      obtain rfl : chained = true := by simpa [Frame.ownsEnd] using hf
      exact .getState fun _ => .seq (.modifyState _) fun _ => ih hm
    | define name context => cases hf

theorem elseFrame_blocks {n : Nat} (h : Blocks frames (n + 1)) (rest : List Char) (line : Nat) :
    Build.Ends (fun fs => Blocks fs (n + 1)) (fun _ => True) (elseFrame rest line frames) := by
  obtain ⟨f, fs, rfl⟩ := h.ne_nil
  obtain ⟨construct, start, outer⟩ := f
  match construct with
  | .define _ _ => exact .throw trivial
  | .branch _ _ _ (some _) => exact .throw trivial
  | .branch b p chained none =>
    have hother : ∀ body, Blocks (⟨.branch b p chained (some body), start, outer⟩ :: fs) (n + 1) :=
      fun body => by
        cases h with
        | own hf h => exact .own hf h
        | chained hf h => exact .chained hf h
    refine .getState fun s => ?_
    dsimp only
    split
    · exact .seq (.modifyState _) fun _ => .pure (hother _)
    · split
      · exact .throw trivial
      · refine .seq (.any _) fun p => .seq (.modifyState _) fun _ => ?_
        refine (openFrame_opens _ line).bind fun f hf => .pure (.chained ?_ (hother _))
        simp [Frame.ownsEnd, hf]

/-- The frames behind a segment are those of the blocks that are open there. -/
theorem step_blocks {n m : Nat} {segment : Segment} (h : Blocks frames n)
    (hm : openAfter n [segment] = some m) (ds : List Definition) :
    Build.Ends (fun r => Blocks r.1 m) (fun _ => True) (step frames ds segment) := by
  cases segment with
  | text s =>
    cases hm
    exact .seq (.text _) fun _ => .pure h
  | action statement line =>
    simp only [openAfter] at hm
    simp only [step]
    cases hkeyword : Keyword.of statement with
    | finish =>
      cases n with
      | zero => simp [hkeyword] at hm
      | succ n =>
        obtain rfl : n = m := by simpa [hkeyword] using hm
        exact (closeFrame_blocks h).bind fun r hr => .pure hr
    | otherwise rest =>
      cases n with
      | zero => simp [hkeyword] at hm
      | succ n =>
        obtain rfl : n + 1 = m := by simpa [hkeyword] using hm
        exact (elseFrame_blocks h rest line).bind fun r hr => .pure hr
    | branch b subject =>
      obtain rfl : n + 1 = m := by simpa [hkeyword] using hm
      refine .seq (.any _) fun p => (openFrame_opens _ line).bind fun f hf => .pure (.own ?_ h)
      simp [Frame.ownsEnd, hf]
    | define subject =>
      obtain rfl : n + 1 = m := by simpa [hkeyword] using hm
      refine .seq (.any _) fun p => ?_
      cases definedName? p with
      | none => exact .throw trivial
      | some name =>
        refine .getState fun _ => (openFrame_opens _ line).bind fun f hf => ?_
        refine .seq (.modifyState _) fun _ => .pure (.own ?_ h)
        simp [Frame.ownsEnd, hf]
    | action =>
      obtain rfl : n = m := by simpa [hkeyword] using hm
      exact .seq (.any _) fun _ => .pure h

/-! ## Some segments -/

theorem openAfter_append (xs ys : List Segment) : ∀ n,
    openAfter n (xs ++ ys) = (openAfter n xs).bind fun m => openAfter m ys := by
  induction xs with
  | nil => exact fun _ => rfl
  | cons x xs ih =>
    intro n
    cases x with
    | text s => exact ih n
    | action statement line =>
      cases n <;> cases hkeyword : Keyword.of statement <;> simp [openAfter, hkeyword, ih]

/-- The first of some segments leaves a number of blocks open, and the others go on from there. -/
theorem exists_openAfter {segment : Segment} {segments : List Segment} {n m : Nat}
    (h : openAfter n (segment :: segments) = some m) :
    ∃ k, openAfter n [segment] = some k ∧ openAfter k segments = some m := by
  have hsplit := openAfter_append [segment] segments n
  rw [List.singleton_append, h] at hsplit
  exact Option.bind_eq_some_iff.1 hsplit.symm

theorem walk_blocks (segments : List Segment) {m : Nat} :
    ∀ {n : Nat} {frames : List Frame} (done : List Definition), Blocks frames n →
      openAfter n segments = some m →
      Build.Ends (fun r => Blocks r.1 m) (fun _ => True) (walk frames done segments) := by
  induction segments with
  | nil =>
    rintro n frames done h ⟨⟩
    exact .pure h
  | cons segment segments ih =>
    intro n frames done h hm
    obtain ⟨k, hk, hrest⟩ := exists_openAfter hm
    exact (step_blocks h hk done).bind fun r hr => ih r.2 hr hrest

/-- Segments are compiled alike in all open frames, if they touch only blocks of their own. -/
theorem walk_append (segments : List Segment) {m : Nat} (frames : List Frame) (done : List Definition) :
    ∀ {n : Nat} {inner : List Frame} (ds : List Definition), Blocks inner n →
      openAfter n segments = some m →
      walk (inner ++ frames) (ds ++ done) segments =
        (fun r => (r.1 ++ frames, r.2 ++ done)) <$> walk inner ds segments := by
  induction segments with
  | nil => exact fun _ _ _ => rfl
  | cons segment segments ih =>
    intro n inner ds h hm
    obtain ⟨k, hk, hrest⟩ := exists_openAfter hm
    rw [walk, walk, step_append h hk, map_bind, bind_map_left]
    exact (step_blocks h hk ds).bind_congr fun r hr => ih r.2 hr hrest

/-- **Segments with no block but their own are compiled without a look at the open frames**: these stay
as they are, and the definitions that end come in front of the others. -/
theorem compile_body {segments : List Segment} (h : openAfter 0 segments = some 0)
    (frames : List Frame) (done : List Definition) (rest : List Segment) :
    compile frames done (segments ++ rest) =
      walk [] [] segments >>= fun r => compile frames (r.2 ++ done) rest := by
  have hwalk := walk_append segments frames done [] .nil h
  rw [List.nil_append, List.nil_append] at hwalk
  rw [compile_append, hwalk, bind_map_left]
  refine (walk_blocks segments [] .nil h).bind_congr fun r hr => ?_
  rw [hr.eq_nil, List.nil_append]

end Stencil.Delimited
