import PageMarkup.Document.Draft
import PageMarkup.Proofs.ScanLaws

/-!
# What holds while a document is read

A draft is built by taking the tokens of a text one by one. `Draft.reading` is the induction over
them: what holds of the empty draft, and is kept by every token that the state allows, holds after
every beginning of the tokens, in the state and at the offset to which they lead.
-/

namespace PageMarkup

open ScanState (Reads)

def finalOffset (offset : Nat) (tokens : List Placed) : Nat :=
  (tokens.getLast?.map Placed.stop).getD offset

theorem finalState_cons (state : ScanState) (p : Placed) (tokens : List Placed) :
    finalState state (p :: tokens) = finalState p.state tokens := by
  cases tokens with
  | nil => rfl
  | cons q tokens => simp [finalState, List.getLast?_cons]

theorem finalOffset_cons (offset : Nat) (p : Placed) (tokens : List Placed) :
    finalOffset offset (p :: tokens) = finalOffset p.stop tokens := by
  cases tokens with
  | nil => rfl
  | cons q tokens => simp [finalOffset, List.getLast?_cons]

theorem finalOffset_scan (state : ScanState) (offset : Nat) (cs : Text) :
    finalOffset offset (scan state offset cs) = offset + Text.size cs := by
  fun_induction scan state offset cs with
  | case1 => rfl
  | case2 state offset c cs step ih =>
    have hsize : step.token.size + Text.size step.rest = Text.size (c :: cs) :=
      Token.size_next_add_size_rest state c cs
    rw [finalOffset_cons, Placed.stop, ih, ← hsize, Nat.add_assoc]

namespace Draft

def after (text : Text) (done : List Placed) : Draft :=
  done.foldl (accept text) (empty text)

section
variable {text : Text} {motive : Nat → ScanState → Draft → Prop}
  (hstep : ∀ p state d, p ∈ tokens text → Reads state p.kind p.state →
    motive p.offset state d → motive p.stop p.state (d.accept text p))
include hstep

theorem foldl_accept (hscan : scan state offset cs = done ++ todo)
    (hmem : ∀ p ∈ done, p ∈ tokens text) (h : motive offset state d) :
    motive (finalOffset offset done) (finalState state done) (done.foldl (accept text) d) := by
  induction done generalizing state offset cs d with
  | nil => exact h
  | cons p done ih =>
    obtain ⟨c, rest, -, hp, htail⟩ := scan_eq_cons hscan
    have hreads : Reads state p.kind p.state := by
      rw [hp]
      exact Token.next_reads state c rest
    have hoffset : p.offset = offset := by rw [hp]
    rw [finalState_cons, finalOffset_cons]
    refine ih htail.symm (fun q hq => hmem q (List.mem_cons_of_mem p hq)) ?_
    exact hstep p state d (hmem p List.mem_cons_self) hreads (hoffset ▸ h)

theorem reading (hstart : motive 0 .content (empty text)) (h : tokens text = done ++ todo) :
    motive (finalOffset 0 done) (finalState .content done) (after text done) :=
  foldl_accept hstep h (fun _ hp => h ▸ List.mem_append_left todo hp) hstart

theorem reading_all (hstart : motive 0 .content (empty text)) :
    motive text.size (finalState .content (tokens text)) (after text (tokens text)) := by
  have h := reading hstep hstart (List.append_nil (tokens text)).symm
  have hoffset : finalOffset 0 (tokens text) = text.size := by
    rw [tokens, finalOffset_scan, Nat.zero_add]
  rwa [hoffset] at h

end

end Draft

end PageMarkup
