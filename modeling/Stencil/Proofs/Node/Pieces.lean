import Stencil.Proofs.Node.Marked
import Stencil.Proofs.Text.Span

namespace Stencil

namespace Region

def start : Region → Nat
  | .text o _ => o
  | .output o _ => o
  | .tag o _ => o
  | .unclosedOutput o => o
  | .unclosedTag o => o

def content : Region → List Char
  | .text _ cs => cs
  | .output _ cs => cs
  | .tag _ cs => cs
  | .unclosedOutput _ => []
  | .unclosedTag _ => []

/-- The marks in front, which the offset of an unclosed region does not pass over. -/
def opening : Region → List Char
  | .output _ _ => ['\x7b', '\x7b']
  | .tag _ _ => ['\x7b', '%']
  | _ => []

def closing : Region → List Char
  | .text _ _ => []
  | .output _ _ => ['\x7d', '\x7d']
  | .tag _ _ => ['%', '\x7d']
  | .unclosedOutput _ => ['\x7b', '\x7b']
  | .unclosedTag _ => ['\x7b', '%']

def written (r : Region) : List Char :=
  r.opening ++ (r.content ++ r.closing)

def StandsIn (source : List Char) (r : Region) : Prop :=
  r.written ≠ [] ∧ ∃ n, r.start = n + Text.byteLength r.opening ∧ Text.StandsAt source n r.written

inductive Pieces : Nat → List Char → List Region → Prop
  | nil {o : Nat} {cs : List Char} : Pieces o cs []
  | skip {o : Nat} {c : Char} {cs : List Char} {regions : List Region} :
      Pieces (o + c.utf8Size) cs regions → Pieces o (c :: cs) regions
  | cons {o : Nat} {rest : List Char} {r : Region} {regions : List Region} :
      r.written ≠ [] → r.start = o + Text.byteLength r.opening →
        Pieces (o + Text.byteLength r.written) rest regions → Pieces o (r.written ++ rest) (r :: regions)

variable {o : Nat} {cs rest body : List Char} {regions : List Region} {r : Region} {skip : Bool}

theorem Pieces.text (hne : cs ≠ []) (h : Pieces (o + Text.byteLength cs) rest regions) :
    Pieces o (cs ++ rest) (.text o cs :: regions) := by
  have hwritten : (Region.text o cs).written = cs := by simp [written, opening, content, closing]
  have hp := Pieces.cons (r := .text o cs) (by rwa [hwritten]) rfl (by rwa [hwritten])
  rwa [hwritten] at hp

theorem Pieces.output (h : Pieces (o + 4 + Text.byteLength body) rest regions) :
    Pieces o ('\x7b' :: '\x7b' :: (body ++ '\x7d' :: '\x7d' :: rest)) (.output (o + 2) body :: regions) := by
  have hlen : Text.byteLength (Region.output (o + 2) body).written = 4 + Text.byteLength body := by
    have hm := Text.byteLength_marked (a := '\x7b') (b := '\x7b') (c := '\x7d') (d := '\x7d') rfl rfl rfl rfl [] body
    rw [Text.byteLength, Nat.zero_add] at hm
    exact hm
  have hp := Pieces.cons (r := .output (o + 2) body) (List.cons_ne_nil _ _) rfl
    (by rwa [hlen, ← Nat.add_assoc])
  simpa [written, opening, content, closing] using hp

theorem Pieces.tag (h : Pieces (o + 4 + Text.byteLength body) rest regions) :
    Pieces o ('\x7b' :: '%' :: (body ++ '%' :: '\x7d' :: rest)) (.tag (o + 2) body :: regions) := by
  have hlen : Text.byteLength (Region.tag (o + 2) body).written = 4 + Text.byteLength body := by
    have hm := Text.byteLength_marked (a := '\x7b') (b := '%') (c := '%') (d := '\x7d') rfl rfl rfl rfl [] body
    rw [Text.byteLength, Nat.zero_add] at hm
    exact hm
  have hp := Pieces.cons (r := .tag (o + 2) body) (List.cons_ne_nil _ _) rfl
    (by rwa [hlen, ← Nat.add_assoc])
  simpa [written, opening, content, closing] using hp

theorem Pieces.of_afterTag
    (h : Pieces (o + (cs.length - (afterTag skip cs).length)) (afterTag skip cs) regions) :
    Pieces o cs regions := by
  unfold afterTag at h
  split at h
  next cs =>
    split at h
    · rw [List.length_cons, Nat.add_sub_cancel_left] at h
      exact .skip h
    · rw [Nat.sub_self, Nat.add_zero] at h
      exact h
  next =>
    rw [Nat.sub_self, Nat.add_zero] at h
    exact h

theorem pieces_scan (skip : Bool) (o : Nat) (cs : List Char) : Pieces o cs (scan skip o cs) := by
  fun_induction scan skip o cs with
  | case1 => exact .nil
  | case2 o cs _ => exact .cons (r := .unclosedOutput o) (List.cons_ne_nil _ _) rfl .nil
  | case3 o cs body rest hsplit _ ih =>
      obtain ⟨rfl, -⟩ := splitAtMark_spec hsplit
      exact .output ih
  | case4 o cs _ => exact .cons (r := .unclosedTag o) (List.cons_ne_nil _ _) rfl .nil
  | case5 o cs body rest hsplit _ _ next ih =>
      obtain ⟨rfl, -⟩ := splitAtMark_spec hsplit
      exact .tag (.of_afterTag ih)
  | case6 o c cs _ _ ih =>
      rw [← List.singleton_append]
      exact .text (List.cons_ne_nil _ _) ih
  | case7 o c cs _ _ _ rest _ hrest =>
      have h : Pieces o (c :: cs ++ []) [.text o (c :: cs)] := .text (List.cons_ne_nil c cs) .nil
      rwa [List.append_nil] at h
  | case8 o c cs _ _ _ run rest _ hrest ih =>
      have hcs : c :: cs = run ++ rest := by
        rw [List.cons_append, List.takeWhile_append_dropWhile]
      rw [hcs]
      exact .text (List.cons_ne_nil _ _) ih

theorem Pieces.standsIn (h : Pieces o cs regions) (before : List Char) (ho : Text.byteLength before = o) :
    ∀ r ∈ regions, r.StandsIn (before ++ cs) := by
  induction h generalizing before with
  | nil => exact List.forall_mem_nil _
  | @skip o c cs regions _ ih =>
      have h := ih (before ++ [c]) (by rw [Text.byteLength_append, ho]; rfl)
      rwa [List.append_assoc] at h
  | @cons o rest r regions hne hstart _ ih =>
      have h := ih (before ++ r.written) (by rw [Text.byteLength_append, ho])
      rw [List.append_assoc] at h
      exact List.forall_mem_cons.2 ⟨⟨hne, o, hstart, before, rest, rfl, ho⟩, h⟩

theorem byteLength_written (r : Region) : Text.byteLength r.written =
    Text.byteLength r.opening + Text.byteLength r.content + Text.byteLength r.closing := by
  simp [written, Nat.add_assoc]

theorem Pieces.le (h : Pieces o cs regions) : ∀ r ∈ regions, o ≤ r.start := by
  induction h with
  | nil => exact List.forall_mem_nil _
  | skip _ ih => exact fun r hr => Nat.le_trans (Nat.le_add_right _ _) (ih r hr)
  | cons _ hstart _ ih =>
      refine List.forall_mem_cons.2 ⟨hstart ▸ Nat.le_add_right _ _, fun r hr => ?_⟩
      exact Nat.le_trans (Nat.le_add_right _ _) (ih r hr)

theorem Pieces.ordered (h : Pieces o cs regions) :
    regions.Pairwise fun r s => r.start + Text.byteLength r.content ≤ s.start := by
  induction h with
  | nil => exact .nil
  | skip _ ih => exact ih
  | @cons o rest r regions _ hstart h ih =>
      refine List.pairwise_cons.2 ⟨fun s hs => ?_, ih⟩
      have hle := h.le s hs
      rw [byteLength_written] at hle
      omega

theorem standsIn_of_scan {source : List Char} (h : r ∈ scan skip 0 source) : r.StandsIn source :=
  (pieces_scan skip 0 source).standsIn [] rfl r h

theorem StandsIn.content {source : List Char} (h : r.StandsIn source) :
    Text.StandsAt source r.start r.content := by
  obtain ⟨-, n, hstart, hn⟩ := h
  rw [hstart]
  exact hn.inner

end Region

end Stencil
