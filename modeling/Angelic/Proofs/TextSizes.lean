import Angelic.Proofs.Texts

namespace Angelic.Proofs
open CString Model

/-! The sizes of the texts that are formatted. -/

/-- Nothing of the text is cut. -/
def Text.Fits (t : Text) : Prop := t.full.length < t.size

instance (t : Text) : Decidable t.Fits := inferInstanceAs (Decidable (_ < _))

theorem Text.Fits.str {t : Text} (h : t.Fits) : t.str = t.full := by
  rw [t.str_eq, List.take_of_length_le]
  exact Nat.le_sub_one_of_lt h

/-- The length of what stands in the format itself. -/
def literal (fmt : Str) : Nat := ((pieces fmt).map List.length).sum

theorem Text.fits_of_le {t : Text} (h : literal t.fmt + (t.args.map fun a => a.text.length).sum < t.size) : t.Fits :=
  Nat.lt_of_le_of_lt (weave_length_le ..) h

theorem text_s_length {n : Nat} {v : Str} (h : v.length < n) : (Arg.text (.s v)).length < n :=
  Nat.lt_of_le_of_lt (List.takeWhile_sublist _).length_le h

end Angelic.Proofs
