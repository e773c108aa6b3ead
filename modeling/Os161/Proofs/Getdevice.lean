import Os161.Proofs.Refs

/-!
# Paths begin where the syntax says

Two steps. On the buffer that holds a path and its terminator, `getdevice` does
what it does on the string: the index it returns is that of the rest of the path
(`awpE_pathGetdevice`), and no access misses the buffer. On the string, it finds
the place that `splitPath` and `State.startOf` name, and its caller has one
reference more (`awpE_getdevice`).
-/

namespace Os161.Vfs

open Os161.Kern Os161.Lib

variable {σ : Type} {kept opened held : List Vnode} {s : State σ} {O : Ops σ} {v : Vnode}

/-! ## The buffer -/

section
variable {t : Terms PathPanic} {buf post : List UInt8}

variable {i left : Nat} {c : UInt8} {Q : Except Errno (Nat × Vnode) → PathState σ → Prop}
  {l rest : List UInt8} {path : CString}

theorem getElem?_of_drop (h : buf.drop i = c :: l) : buf[i]? = some c := by
  rw [← List.head?_drop, h]
  rfl

theorem drop_succ_of_drop (h : buf.drop i = c :: l) : buf.drop (i + 1) = l := by
  rw [← List.tail_drop, h]
  rfl

theorem awp_charAt {Q : UInt8 → PathState σ → Prop} (hc : buf[i]? = some c) (hQ : Q c ⟨s, buf⟩) :
    awp t (charAt i) Q ⟨s, buf⟩ := by
  refine awp_bind.2 ?_
  rw [awp_mem]
  rw [hc]
  exact hQ

theorem awp_scan {Q : Option Nat × Option Nat → PathState σ → Prop}
    (hbuf : buf.drop i = l ++ 0 :: post) (hl : ∀ c ∈ l, c ≠ 0) (hleft : l.length < left)
    (hQ : Q (getdevice.scan l i) ⟨s, buf⟩) : awp t (pathGetdevice.scan left i) Q ⟨s, buf⟩ := by
  induction l generalizing i left with
  | nil =>
    obtain ⟨left, rfl⟩ := Nat.exists_eq_succ_of_ne_zero (Nat.ne_of_gt hleft)
    refine awp_bind.2 (awp_charAt (getElem?_of_drop hbuf) ?_)
    rw [if_pos rfl]
    exact hQ
  | cons c l ih =>
    obtain ⟨left, rfl⟩ := Nat.exists_eq_succ_of_ne_zero (Nat.ne_of_gt (Nat.zero_lt_of_lt hleft))
    have hnext := drop_succ_of_drop hbuf
    refine awp_bind.2 (awp_charAt (getElem?_of_drop hbuf) ?_)
    rw [getdevice.scan] at hQ
    rw [if_neg (hl c List.mem_cons_self)]
    split at hQ
    · next hcolon =>
      rw [if_pos hcolon]
      exact hQ
    · next hcolon =>
      rw [if_neg hcolon]
      split at hQ
      · next hslash =>
        rw [if_pos hslash]
        exact hQ
      · next hslash =>
        rw [if_neg hslash]
        exact ih hnext (fun x hx => hl x (List.mem_cons_of_mem _ hx))
          (Nat.lt_of_succ_lt_succ hleft) hQ

theorem awp_skip {Q : Nat → PathState σ → Prop} (hbuf : buf.drop (i + 1) = l ++ 0 :: post)
    (hleft : l.length < left)
    (hQ : ∀ p, buf.drop (p + 1) = skipSlashes l ++ 0 :: post → Q p ⟨s, buf⟩) :
    awp t (pathGetdevice.skip left i) Q ⟨s, buf⟩ := by
  induction l generalizing i left with
  | nil =>
    obtain ⟨left, rfl⟩ := Nat.exists_eq_succ_of_ne_zero (Nat.ne_of_gt hleft)
    refine awp_bind.2 (awp_charAt (getElem?_of_drop hbuf) ?_)
    rw [if_neg (by decide)]
    exact hQ i hbuf
  | cons c l ih =>
    obtain ⟨left, rfl⟩ := Nat.exists_eq_succ_of_ne_zero (Nat.ne_of_gt (Nat.zero_lt_of_lt hleft))
    have hnext := drop_succ_of_drop hbuf
    refine awp_bind.2 (awp_charAt (getElem?_of_drop hbuf) ?_)
    by_cases hslash : c = chSlash
    · rw [if_pos hslash]
      refine ih hnext (Nat.lt_of_succ_lt_succ hleft) fun p hp => hQ p ?_
      rw [hp, skipSlashes, skipSlashes, List.dropWhile_cons, if_pos (by simpa using hslash)]
    · rw [if_neg hslash]
      refine hQ i ?_
      rw [hbuf, skipSlashes, List.dropWhile_cons, if_neg (by simpa using hslash)]

/-- The answer of `getdevice` on the string, as it looks in the buffer. -/
def InBuffer (Q : Except Errno (Nat × Vnode) → PathState σ → Prop) :
    Except Errno (CString × Vnode) → State σ → Prop
  | .ok (sub, v), s => ∀ p buf, CString.ofBytes (buf.drop p) = sub → Q (.ok (p, v)) ⟨s, buf⟩
  | .error e, s => ∀ buf, Q (.error e) ⟨s, buf⟩

/-- A routine that finds the vnode, and the rest of the path behind it. -/
theorem awpE_finds {p : VfsM σ Vnode} {sub : CString} {f : Vnode → PathM σ (Nat × Vnode)}
    (h : awpE (t.zoom .vfs) (do let v ← p; pure (sub, v)) (InBuffer Q) s)
    (hf : ∀ v s', (∀ p, CString.ofBytes (buf.drop p) = sub → Q (.ok (p, v)) ⟨s', buf⟩) →
      awpE t (f v) Q ⟨s', buf⟩) : awpE t (onVfs p >>= f) Q ⟨s, buf⟩ := by
  refine awpE_bind.2 (awpE_zoom.2 (awpE_mono (awpE_bind.1 h) fun r s' hr => ?_))
  cases r with
  | error e => exact hr buf
  | ok v => exact hf v s' fun p hp => hr p buf hp

/-- `/path` and `:path`. -/
theorem awpE_pathGetdevice_root (hpath : path.bytes = c :: rest) (hc : c = chColon ∨ c = chSlash)
    (h : awpE (t.zoom .vfs) (getdevice.root O path) (InBuffer Q) s) :
    awpE t (pathGetdevice.root O) Q ⟨s, path.bytes ++ [0]⟩ := by
  have hbuf : (path.bytes ++ [0])[0]? = some c := by rw [hpath]; rfl
  have hdrop : (path.bytes ++ [0]).drop (0 + 1) = rest ++ 0 :: [] := by rw [hpath]; rfl
  have hsub : (path.after 1).skip chSlash = CString.ofBytes (skipSlashes rest ++ 0 :: []) := by
    rw [← CString.ofBytes_append_zero ((path.after 1).skip chSlash) []]
    have hb : ((path.after 1).skip chSlash).bytes = skipSlashes rest := by
      show (path.bytes.drop 1).dropWhile _ = _
      rw [hpath]
      rfl
    rw [hb]
  have hskip : ∀ v s', (∀ p, CString.ofBytes ((path.bytes ++ [0]).drop p) =
        (path.after 1).skip chSlash → Q (.ok (p, v)) ⟨s', path.bytes ++ [0]⟩) →
      awpE t (do
        let p ← call (pathGetdevice.skip ((path.bytes ++ [0]).length - 1) 0)
        pure (p + 1, v)) Q ⟨s', path.bytes ++ [0]⟩ := by
    intro v s' hv
    refine awpE_call_bind.2 (awp_skip hdrop ?_ fun p hp => hv (p + 1) ?_)
    · rw [hpath, List.length_append]
      show rest.length < rest.length + 1 + 1 - 1
      omega
    · rw [hp, hsub]
  refine awpE_call_bind.2 (awp_charAt hbuf (awpE_call_bind.2 ?_))
  rw [awp_mem]
  rcases hc with rfl | rfl
  · have hhead : path.bytes.head? = some chColon := by rw [hpath]; rfl
    rw [getdevice_root_colon hhead] at h
    rw [if_neg (by decide)]
    refine awpE_call_bind.2 (awp_assert.2 ⟨fun _ => ?_, absurd rfl⟩)
    exact awpE_finds h hskip
  · have hhead : path.bytes.head? = some chSlash := by rw [hpath]; rfl
    rw [getdevice_root_slash hhead] at h
    rw [if_pos rfl]
    exact awpE_finds h hskip

/-- `device:path`. -/
theorem awpE_pathGetdevice_device {a : UInt8} {as : List UInt8}
    (hpath : path.bytes = a :: as ++ c :: rest)
    (h : awpE (t.zoom .vfs) (do
      let startvn ← vfsGetroot O (path.cut (as.length + 1))
      pure ((path.after (as.length + 2)).skip chSlash, startvn)) (InBuffer Q) s) :
    awpE t (do
      call (putChar (as.length + 1) 0)
      let p ← call (pathGetdevice.skip ((path.bytes ++ [0]).length - (as.length + 2))
        (as.length + 1))
      let s ← call Prog.mem
      let startvn ← onVfs (vfsGetroot O (CString.ofBytes s.buf))
      pure (p + 1, startvn)) Q ⟨s, path.bytes ++ [0]⟩ := by
  have hlen : (path.bytes ++ [0]).length = as.length + 1 + (rest.length + 1) + 1 := by
    rw [hpath, List.length_append, List.length_append]
    rfl
  have hset : (path.bytes ++ [0]).set (as.length + 1) 0 = a :: as ++ 0 :: (rest ++ [0]) := by
    rw [hpath, List.append_assoc, List.set_append_right (as.length + 1) 0 (by simp)]
    simp
  have hbehind : ∀ l, (a :: as ++ l).drop (as.length + 1) = l := fun _ => List.drop_left
  have hfront : ∀ l, (a :: as ++ l).take (as.length + 1) = a :: as := fun _ => List.take_left' rfl
  refine awpE_call_bind.2 (awp_bind.2 ?_)
  rw [awp_mem]
  refine awp_bind.2 (awp_assert.2 ⟨fun _ => ?_, fun hn => absurd ?_ hn⟩)
  · rw [awp_put]
    rw [hset]
    have hdrop : (a :: as ++ 0 :: (rest ++ [0])).drop (as.length + 1 + 1) = rest ++ 0 :: [] := by
      rw [← List.drop_drop, hbehind]
      rfl
    refine awpE_call_bind.2 (awp_skip hdrop (by rw [hlen]; omega) fun p hp => ?_)
    refine awpE_call_bind.2 ?_
    rw [awp_mem]
    have hname : CString.ofBytes (a :: as ++ 0 :: (rest ++ [0])) = path.cut (as.length + 1) := by
      have hb : (path.cut (as.length + 1)).bytes = a :: as := by
        show path.bytes.take _ = _
        rw [hpath, hfront]
      rw [← CString.ofBytes_append_zero (path.cut (as.length + 1)) (rest ++ [0]), hb]
    have hsub : CString.ofBytes ((a :: as ++ 0 :: (rest ++ [0])).drop (p + 1)) =
        (path.after (as.length + 2)).skip chSlash := by
      have hb : ((path.after (as.length + 2)).skip chSlash).bytes = skipSlashes rest := by
        show (path.bytes.drop _).dropWhile _ = _
        rw [hpath, ← List.drop_drop (i := 1) (j := as.length + 1), hbehind]
        rfl
      rw [hp, ← CString.ofBytes_append_zero ((path.after (as.length + 2)).skip chSlash) [], hb]
    rw [hname]
    exact awpE_finds h fun v s' hv => hv (p + 1) hsub
  · show as.length + 1 < (path.bytes ++ [0]).length
    rw [hlen]
    omega

/-- On the buffer of a path, `getdevice` does what it does on the string. -/
theorem awpE_pathGetdevice (h : awpE (t.zoom .vfs) (getdevice O path) (InBuffer Q) s) :
    awpE t (pathGetdevice O) Q ⟨s, path.bytes ++ [0]⟩ := by
  refine awpE_call_bind.2 ?_
  rw [awp_mem]
  have hlen : path.bytes.length < (path.bytes ++ [0]).length := by
    rw [List.length_append]
    exact Nat.lt_succ_self _
  refine awpE_call_bind.2 (awp_scan (l := path.bytes) (by rfl) path.nonzero hlen ?_)
  have hsplit := List.takeWhile_append_dropWhile (p := Start.isPlain) (l := path.bytes)
  have hwhole : CString.ofBytes ((path.bytes ++ [0]).drop 0) = path :=
    CString.ofBytes_append_zero path []
  rw [getdevice] at h
  rw [scan_eq] at h ⊢
  generalize path.bytes.takeWhile Start.isPlain = name at h hsplit ⊢
  cases hd : path.bytes.dropWhile Start.isPlain with
  | nil =>
    rw [hd] at h
    dsimp only at h ⊢
    rw [if_pos (by decide)] at h ⊢
    exact awpE_finds h fun v s' hv => hv 0 hwhole
  | cons c rest =>
    rw [hd] at h hsplit
    dsimp only at h ⊢
    by_cases hc : c = chColon
    · rw [if_pos hc] at h ⊢
      cases name with
      | nil => exact awpE_pathGetdevice_root hsplit.symm (.inl hc) h
      | cons a as =>
        rw [Nat.zero_add, List.length_cons] at h ⊢
        dsimp only at h ⊢
        exact awpE_pathGetdevice_device hsplit.symm h
    · have hslash : c = chSlash := (isPlain_of_dropWhile hd).resolve_left hc
      rw [if_neg hc] at h ⊢
      dsimp only at h ⊢
      cases name with
      | nil =>
        rw [if_neg (by simp)] at h ⊢
        exact awpE_pathGetdevice_root hsplit.symm (.inr hslash) h
      | cons a as =>
        rw [if_pos (by simp)] at h ⊢
        exact awpE_finds h fun v s' hv => hv 0 hwhole

end

/-! ## The result -/

/-- A search that ended as it should: it found the place that `x` begins with or
there is none, the rest of the path is in the buffer at the index returned, the
vnode has one reference more, and nothing else is different. -/
def Begins (O : Ops σ) (s : State σ) (x : Start × List UInt8) :
    Except Errno (Nat × Vnode) → PathState σ → Prop
  | .ok (p, v), m =>
    (∃ place, s.startOf O x.1 = .ok place ∧ place.Is O v) ∧
    (CString.ofBytes (m.buf.drop p)).bytes = x.2 ∧
    Gains s.vnodes m.vfs.vnodes v ∧ m.vfs = s.withVnodes m.vfs.vnodes
  | .error e, m =>
    s.startOf O x.1 = .error e ∧
    SameCounts s.vnodes m.vfs.vnodes ∧ m.vfs = s.withVnodes m.vfs.vnodes

/-- For every path, `getdevice` comes to its end without an access outside the
buffer, at the vnode and with the rest of the path that the syntax prescribes. -/
theorem getdevice_follows_syntax (O : Ops σ) (hO : O.Accounts) (h : Sound kept s opened held)
    (path : CString) (script : Script Empty) :
    ∃ r m, (pathGetdevice O).run.run ⟨⟨s, path.bytes ++ [0]⟩, fun _ => (), script⟩ =
        (.done r, m) ∧ Begins O s (splitPath path.bytes) r m.mem := by
  let t : Terms PathPanic := ⟨fun _ => False, False, True⟩
  have hw : awpE t (pathGetdevice O) (Begins O s (splitPath path.bytes))
      ⟨s, path.bytes ++ [0]⟩ := by
    refine awpE_pathGetdevice (awpE_mono (FoundAt.getdevice hO h path) fun r s' hr => ?_)
    obtain ⟨hfound, hsub⟩ := hr
    cases r with
    | error e =>
      have hf : Found O kept s opened held _ (.error e) s' := hfound
      generalize hx : s.startOf O (splitPath path.bytes).1 = x at hf
      cases hf with
      | error hs => exact fun buf => ⟨hx, h.same_of hs, rfl⟩
    | ok y =>
      have hf : Found O kept s opened held _ (.ok y.2) s' := hfound
      generalize hx : s.startOf O (splitPath path.bytes).1 = x at hf
      cases hf with
      | ok hplace hs =>
        intro p buf hp
        refine ⟨⟨_, hx, hplace⟩, ?_, h.gains_of hs, rfl⟩
        rw [← hsub y rfl, ← hp]
  exact awp_run_done (fun _ hf => hf) (fun _ => trivial) hw

/-- `lhd0://x`: the root directory of the file system on `lhd0`, and the file `x`
there. -/
theorem getdevice_device_path : ∃ r m,
    (pathGetdevice (rootOnly fun _ => none)).run.run
        ⟨⟨oneDev, lhd0.bytes ++ [chColon, chSlash, chSlash, 120] ++ [0]⟩, fun _ => (), {}⟩ =
      (.done r, m) ∧
    Begins (rootOnly fun _ => none) oneDev (.device lhd0.bytes, [120]) r m.mem :=
  getdevice_follows_syntax _ (rootOnly_accounts _) oneDev_sound
    (lhd0.strcat (CString.ofBytes [chColon, chSlash, chSlash, 120])) {}

end Os161.Vfs
