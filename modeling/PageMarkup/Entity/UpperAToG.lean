import PageMarkup.Entity.Basic

/-! Entities whose names begin with a letter from A to G, sorted by name. -/

namespace PageMarkup.Entity

def upperAToG : List Entity :=
  [⟨"AElig", "Æ"⟩, ⟨"AElig;", "Æ"⟩, ⟨"AMP", "&"⟩, ⟨"AMP;", "&"⟩, ⟨"Aacute", "Á"⟩,
    ⟨"Aacute;", "Á"⟩, ⟨"Abreve;", "Ă"⟩, ⟨"Acirc", "Â"⟩, ⟨"Acirc;", "Â"⟩, ⟨"Acy;", "А"⟩,
    ⟨"Afr;", "𝔄"⟩, ⟨"Agrave", "À"⟩, ⟨"Agrave;", "À"⟩, ⟨"Alpha;", "Α"⟩, ⟨"Amacr;", "Ā"⟩,
    ⟨"And;", "⩓"⟩, ⟨"Aogon;", "Ą"⟩, ⟨"Aopf;", "𝔸"⟩, ⟨"ApplyFunction;", "\u2061"⟩, ⟨"Aring", "Å"⟩,
    ⟨"Aring;", "Å"⟩, ⟨"Ascr;", "𝒜"⟩, ⟨"Assign;", "≔"⟩, ⟨"Atilde", "Ã"⟩, ⟨"Atilde;", "Ã"⟩,
    ⟨"Auml", "Ä"⟩, ⟨"Auml;", "Ä"⟩, ⟨"Backslash;", "∖"⟩, ⟨"Barv;", "⫧"⟩, ⟨"Barwed;", "⌆"⟩,
    ⟨"Bcy;", "Б"⟩, ⟨"Because;", "∵"⟩, ⟨"Bernoullis;", "ℬ"⟩, ⟨"Beta;", "Β"⟩, ⟨"Bfr;", "𝔅"⟩,
    ⟨"Bopf;", "𝔹"⟩, ⟨"Breve;", "˘"⟩, ⟨"Bscr;", "ℬ"⟩, ⟨"Bumpeq;", "≎"⟩, ⟨"CHcy;", "Ч"⟩,
    ⟨"COPY", "©"⟩, ⟨"COPY;", "©"⟩, ⟨"Cacute;", "Ć"⟩, ⟨"Cap;", "⋒"⟩,
    ⟨"CapitalDifferentialD;", "ⅅ"⟩, ⟨"Cayleys;", "ℭ"⟩, ⟨"Ccaron;", "Č"⟩, ⟨"Ccedil", "Ç"⟩,
    ⟨"Ccedil;", "Ç"⟩, ⟨"Ccirc;", "Ĉ"⟩, ⟨"Cconint;", "∰"⟩, ⟨"Cdot;", "Ċ"⟩, ⟨"Cedilla;", "¸"⟩,
    ⟨"CenterDot;", "·"⟩, ⟨"Cfr;", "ℭ"⟩, ⟨"Chi;", "Χ"⟩, ⟨"CircleDot;", "⊙"⟩, ⟨"CircleMinus;", "⊖"⟩,
    ⟨"CirclePlus;", "⊕"⟩, ⟨"CircleTimes;", "⊗"⟩, ⟨"ClockwiseContourIntegral;", "∲"⟩,
    ⟨"CloseCurlyDoubleQuote;", "”"⟩, ⟨"CloseCurlyQuote;", "’"⟩, ⟨"Colon;", "∷"⟩, ⟨"Colone;", "⩴"⟩,
    ⟨"Congruent;", "≡"⟩, ⟨"Conint;", "∯"⟩, ⟨"ContourIntegral;", "∮"⟩, ⟨"Copf;", "ℂ"⟩,
    ⟨"Coproduct;", "∐"⟩, ⟨"CounterClockwiseContourIntegral;", "∳"⟩, ⟨"Cross;", "⨯"⟩,
    ⟨"Cscr;", "𝒞"⟩, ⟨"Cup;", "⋓"⟩, ⟨"CupCap;", "≍"⟩, ⟨"DD;", "ⅅ"⟩, ⟨"DDotrahd;", "⤑"⟩,
    ⟨"DJcy;", "Ђ"⟩, ⟨"DScy;", "Ѕ"⟩, ⟨"DZcy;", "Џ"⟩, ⟨"Dagger;", "‡"⟩, ⟨"Darr;", "↡"⟩,
    ⟨"Dashv;", "⫤"⟩, ⟨"Dcaron;", "Ď"⟩, ⟨"Dcy;", "Д"⟩, ⟨"Del;", "∇"⟩, ⟨"Delta;", "Δ"⟩,
    ⟨"Dfr;", "𝔇"⟩, ⟨"DiacriticalAcute;", "´"⟩, ⟨"DiacriticalDot;", "˙"⟩,
    ⟨"DiacriticalDoubleAcute;", "˝"⟩, ⟨"DiacriticalGrave;", "`"⟩, ⟨"DiacriticalTilde;", "˜"⟩,
    ⟨"Diamond;", "⋄"⟩, ⟨"DifferentialD;", "ⅆ"⟩, ⟨"Dopf;", "𝔻"⟩, ⟨"Dot;", "¨"⟩,
    ⟨"DotDot;", "\u20dc"⟩, ⟨"DotEqual;", "≐"⟩, ⟨"DoubleContourIntegral;", "∯"⟩,
    ⟨"DoubleDot;", "¨"⟩, ⟨"DoubleDownArrow;", "⇓"⟩, ⟨"DoubleLeftArrow;", "⇐"⟩,
    ⟨"DoubleLeftRightArrow;", "⇔"⟩, ⟨"DoubleLeftTee;", "⫤"⟩, ⟨"DoubleLongLeftArrow;", "⟸"⟩,
    ⟨"DoubleLongLeftRightArrow;", "⟺"⟩, ⟨"DoubleLongRightArrow;", "⟹"⟩,
    ⟨"DoubleRightArrow;", "⇒"⟩, ⟨"DoubleRightTee;", "⊨"⟩, ⟨"DoubleUpArrow;", "⇑"⟩,
    ⟨"DoubleUpDownArrow;", "⇕"⟩, ⟨"DoubleVerticalBar;", "∥"⟩, ⟨"DownArrow;", "↓"⟩,
    ⟨"DownArrowBar;", "⤓"⟩, ⟨"DownArrowUpArrow;", "⇵"⟩, ⟨"DownBreve;", "\u0311"⟩,
    ⟨"DownLeftRightVector;", "⥐"⟩, ⟨"DownLeftTeeVector;", "⥞"⟩, ⟨"DownLeftVector;", "↽"⟩,
    ⟨"DownLeftVectorBar;", "⥖"⟩, ⟨"DownRightTeeVector;", "⥟"⟩, ⟨"DownRightVector;", "⇁"⟩,
    ⟨"DownRightVectorBar;", "⥗"⟩, ⟨"DownTee;", "⊤"⟩, ⟨"DownTeeArrow;", "↧"⟩, ⟨"Downarrow;", "⇓"⟩,
    ⟨"Dscr;", "𝒟"⟩, ⟨"Dstrok;", "Đ"⟩, ⟨"ENG;", "Ŋ"⟩, ⟨"ETH", "Ð"⟩, ⟨"ETH;", "Ð"⟩, ⟨"Eacute", "É"⟩,
    ⟨"Eacute;", "É"⟩, ⟨"Ecaron;", "Ě"⟩, ⟨"Ecirc", "Ê"⟩, ⟨"Ecirc;", "Ê"⟩, ⟨"Ecy;", "Э"⟩,
    ⟨"Edot;", "Ė"⟩, ⟨"Efr;", "𝔈"⟩, ⟨"Egrave", "È"⟩, ⟨"Egrave;", "È"⟩, ⟨"Element;", "∈"⟩,
    ⟨"Emacr;", "Ē"⟩, ⟨"EmptySmallSquare;", "◻"⟩, ⟨"EmptyVerySmallSquare;", "▫"⟩, ⟨"Eogon;", "Ę"⟩,
    ⟨"Eopf;", "𝔼"⟩, ⟨"Epsilon;", "Ε"⟩, ⟨"Equal;", "⩵"⟩, ⟨"EqualTilde;", "≂"⟩,
    ⟨"Equilibrium;", "⇌"⟩, ⟨"Escr;", "ℰ"⟩, ⟨"Esim;", "⩳"⟩, ⟨"Eta;", "Η"⟩, ⟨"Euml", "Ë"⟩,
    ⟨"Euml;", "Ë"⟩, ⟨"Exists;", "∃"⟩, ⟨"ExponentialE;", "ⅇ"⟩, ⟨"Fcy;", "Ф"⟩, ⟨"Ffr;", "𝔉"⟩,
    ⟨"FilledSmallSquare;", "◼"⟩, ⟨"FilledVerySmallSquare;", "▪"⟩, ⟨"Fopf;", "𝔽"⟩,
    ⟨"ForAll;", "∀"⟩, ⟨"Fouriertrf;", "ℱ"⟩, ⟨"Fscr;", "ℱ"⟩, ⟨"GJcy;", "Ѓ"⟩, ⟨"GT", ">"⟩,
    ⟨"GT;", ">"⟩, ⟨"Gamma;", "Γ"⟩, ⟨"Gammad;", "Ϝ"⟩, ⟨"Gbreve;", "Ğ"⟩, ⟨"Gcedil;", "Ģ"⟩,
    ⟨"Gcirc;", "Ĝ"⟩, ⟨"Gcy;", "Г"⟩, ⟨"Gdot;", "Ġ"⟩, ⟨"Gfr;", "𝔊"⟩, ⟨"Gg;", "⋙"⟩, ⟨"Gopf;", "𝔾"⟩,
    ⟨"GreaterEqual;", "≥"⟩, ⟨"GreaterEqualLess;", "⋛"⟩, ⟨"GreaterFullEqual;", "≧"⟩,
    ⟨"GreaterGreater;", "⪢"⟩, ⟨"GreaterLess;", "≷"⟩, ⟨"GreaterSlantEqual;", "⩾"⟩,
    ⟨"GreaterTilde;", "≳"⟩, ⟨"Gscr;", "𝒢"⟩, ⟨"Gt;", "≫"⟩]

end PageMarkup.Entity
