import PageMarkup.Entity.Basic

/-! Entities whose names begin with a letter from H to O, sorted by name. -/

namespace PageMarkup.Entity

def upperHToO : List Entity :=
  [⟨"HARDcy;", "Ъ"⟩, ⟨"Hacek;", "ˇ"⟩, ⟨"Hat;", "^"⟩, ⟨"Hcirc;", "Ĥ"⟩, ⟨"Hfr;", "ℌ"⟩,
    ⟨"HilbertSpace;", "ℋ"⟩, ⟨"Hopf;", "ℍ"⟩, ⟨"HorizontalLine;", "─"⟩, ⟨"Hscr;", "ℋ"⟩,
    ⟨"Hstrok;", "Ħ"⟩, ⟨"HumpDownHump;", "≎"⟩, ⟨"HumpEqual;", "≏"⟩, ⟨"IEcy;", "Е"⟩,
    ⟨"IJlig;", "Ĳ"⟩, ⟨"IOcy;", "Ё"⟩, ⟨"Iacute", "Í"⟩, ⟨"Iacute;", "Í"⟩, ⟨"Icirc", "Î"⟩,
    ⟨"Icirc;", "Î"⟩, ⟨"Icy;", "И"⟩, ⟨"Idot;", "İ"⟩, ⟨"Ifr;", "ℑ"⟩, ⟨"Igrave", "Ì"⟩,
    ⟨"Igrave;", "Ì"⟩, ⟨"Im;", "ℑ"⟩, ⟨"Imacr;", "Ī"⟩, ⟨"ImaginaryI;", "ⅈ"⟩, ⟨"Implies;", "⇒"⟩,
    ⟨"Int;", "∬"⟩, ⟨"Integral;", "∫"⟩, ⟨"Intersection;", "⋂"⟩, ⟨"InvisibleComma;", "\u2063"⟩,
    ⟨"InvisibleTimes;", "\u2062"⟩, ⟨"Iogon;", "Į"⟩, ⟨"Iopf;", "𝕀"⟩, ⟨"Iota;", "Ι"⟩,
    ⟨"Iscr;", "ℐ"⟩, ⟨"Itilde;", "Ĩ"⟩, ⟨"Iukcy;", "І"⟩, ⟨"Iuml", "Ï"⟩, ⟨"Iuml;", "Ï"⟩,
    ⟨"Jcirc;", "Ĵ"⟩, ⟨"Jcy;", "Й"⟩, ⟨"Jfr;", "𝔍"⟩, ⟨"Jopf;", "𝕁"⟩, ⟨"Jscr;", "𝒥"⟩,
    ⟨"Jsercy;", "Ј"⟩, ⟨"Jukcy;", "Є"⟩, ⟨"KHcy;", "Х"⟩, ⟨"KJcy;", "Ќ"⟩, ⟨"Kappa;", "Κ"⟩,
    ⟨"Kcedil;", "Ķ"⟩, ⟨"Kcy;", "К"⟩, ⟨"Kfr;", "𝔎"⟩, ⟨"Kopf;", "𝕂"⟩, ⟨"Kscr;", "𝒦"⟩,
    ⟨"LJcy;", "Љ"⟩, ⟨"LT", "<"⟩, ⟨"LT;", "<"⟩, ⟨"Lacute;", "Ĺ"⟩, ⟨"Lambda;", "Λ"⟩, ⟨"Lang;", "⟪"⟩,
    ⟨"Laplacetrf;", "ℒ"⟩, ⟨"Larr;", "↞"⟩, ⟨"Lcaron;", "Ľ"⟩, ⟨"Lcedil;", "Ļ"⟩, ⟨"Lcy;", "Л"⟩,
    ⟨"LeftAngleBracket;", "⟨"⟩, ⟨"LeftArrow;", "←"⟩, ⟨"LeftArrowBar;", "⇤"⟩,
    ⟨"LeftArrowRightArrow;", "⇆"⟩, ⟨"LeftCeiling;", "⌈"⟩, ⟨"LeftDoubleBracket;", "⟦"⟩,
    ⟨"LeftDownTeeVector;", "⥡"⟩, ⟨"LeftDownVector;", "⇃"⟩, ⟨"LeftDownVectorBar;", "⥙"⟩,
    ⟨"LeftFloor;", "⌊"⟩, ⟨"LeftRightArrow;", "↔"⟩, ⟨"LeftRightVector;", "⥎"⟩, ⟨"LeftTee;", "⊣"⟩,
    ⟨"LeftTeeArrow;", "↤"⟩, ⟨"LeftTeeVector;", "⥚"⟩, ⟨"LeftTriangle;", "⊲"⟩,
    ⟨"LeftTriangleBar;", "⧏"⟩, ⟨"LeftTriangleEqual;", "⊴"⟩, ⟨"LeftUpDownVector;", "⥑"⟩,
    ⟨"LeftUpTeeVector;", "⥠"⟩, ⟨"LeftUpVector;", "↿"⟩, ⟨"LeftUpVectorBar;", "⥘"⟩,
    ⟨"LeftVector;", "↼"⟩, ⟨"LeftVectorBar;", "⥒"⟩, ⟨"Leftarrow;", "⇐"⟩, ⟨"Leftrightarrow;", "⇔"⟩,
    ⟨"LessEqualGreater;", "⋚"⟩, ⟨"LessFullEqual;", "≦"⟩, ⟨"LessGreater;", "≶"⟩,
    ⟨"LessLess;", "⪡"⟩, ⟨"LessSlantEqual;", "⩽"⟩, ⟨"LessTilde;", "≲"⟩, ⟨"Lfr;", "𝔏"⟩,
    ⟨"Ll;", "⋘"⟩, ⟨"Lleftarrow;", "⇚"⟩, ⟨"Lmidot;", "Ŀ"⟩, ⟨"LongLeftArrow;", "⟵"⟩,
    ⟨"LongLeftRightArrow;", "⟷"⟩, ⟨"LongRightArrow;", "⟶"⟩, ⟨"Longleftarrow;", "⟸"⟩,
    ⟨"Longleftrightarrow;", "⟺"⟩, ⟨"Longrightarrow;", "⟹"⟩, ⟨"Lopf;", "𝕃"⟩,
    ⟨"LowerLeftArrow;", "↙"⟩, ⟨"LowerRightArrow;", "↘"⟩, ⟨"Lscr;", "ℒ"⟩, ⟨"Lsh;", "↰"⟩,
    ⟨"Lstrok;", "Ł"⟩, ⟨"Lt;", "≪"⟩, ⟨"Map;", "⤅"⟩, ⟨"Mcy;", "М"⟩, ⟨"MediumSpace;", "\u205f"⟩,
    ⟨"Mellintrf;", "ℳ"⟩, ⟨"Mfr;", "𝔐"⟩, ⟨"MinusPlus;", "∓"⟩, ⟨"Mopf;", "𝕄"⟩, ⟨"Mscr;", "ℳ"⟩,
    ⟨"Mu;", "Μ"⟩, ⟨"NJcy;", "Њ"⟩, ⟨"Nacute;", "Ń"⟩, ⟨"Ncaron;", "Ň"⟩, ⟨"Ncedil;", "Ņ"⟩,
    ⟨"Ncy;", "Н"⟩, ⟨"NegativeMediumSpace;", "\u200b"⟩, ⟨"NegativeThickSpace;", "\u200b"⟩,
    ⟨"NegativeThinSpace;", "\u200b"⟩, ⟨"NegativeVeryThinSpace;", "\u200b"⟩,
    ⟨"NestedGreaterGreater;", "≫"⟩, ⟨"NestedLessLess;", "≪"⟩, ⟨"NewLine;", "\n"⟩, ⟨"Nfr;", "𝔑"⟩,
    ⟨"NoBreak;", "\u2060"⟩, ⟨"NonBreakingSpace;", "\u00a0"⟩, ⟨"Nopf;", "ℕ"⟩, ⟨"Not;", "⫬"⟩,
    ⟨"NotCongruent;", "≢"⟩, ⟨"NotCupCap;", "≭"⟩, ⟨"NotDoubleVerticalBar;", "∦"⟩,
    ⟨"NotElement;", "∉"⟩, ⟨"NotEqual;", "≠"⟩, ⟨"NotEqualTilde;", "≂\u0338"⟩, ⟨"NotExists;", "∄"⟩,
    ⟨"NotGreater;", "≯"⟩, ⟨"NotGreaterEqual;", "≱"⟩, ⟨"NotGreaterFullEqual;", "≧\u0338"⟩,
    ⟨"NotGreaterGreater;", "≫\u0338"⟩, ⟨"NotGreaterLess;", "≹"⟩,
    ⟨"NotGreaterSlantEqual;", "⩾\u0338"⟩, ⟨"NotGreaterTilde;", "≵"⟩,
    ⟨"NotHumpDownHump;", "≎\u0338"⟩, ⟨"NotHumpEqual;", "≏\u0338"⟩, ⟨"NotLeftTriangle;", "⋪"⟩,
    ⟨"NotLeftTriangleBar;", "⧏\u0338"⟩, ⟨"NotLeftTriangleEqual;", "⋬"⟩, ⟨"NotLess;", "≮"⟩,
    ⟨"NotLessEqual;", "≰"⟩, ⟨"NotLessGreater;", "≸"⟩, ⟨"NotLessLess;", "≪\u0338"⟩,
    ⟨"NotLessSlantEqual;", "⩽\u0338"⟩, ⟨"NotLessTilde;", "≴"⟩,
    ⟨"NotNestedGreaterGreater;", "⪢\u0338"⟩, ⟨"NotNestedLessLess;", "⪡\u0338"⟩,
    ⟨"NotPrecedes;", "⊀"⟩, ⟨"NotPrecedesEqual;", "⪯\u0338"⟩, ⟨"NotPrecedesSlantEqual;", "⋠"⟩,
    ⟨"NotReverseElement;", "∌"⟩, ⟨"NotRightTriangle;", "⋫"⟩, ⟨"NotRightTriangleBar;", "⧐\u0338"⟩,
    ⟨"NotRightTriangleEqual;", "⋭"⟩, ⟨"NotSquareSubset;", "⊏\u0338"⟩,
    ⟨"NotSquareSubsetEqual;", "⋢"⟩, ⟨"NotSquareSuperset;", "⊐\u0338"⟩,
    ⟨"NotSquareSupersetEqual;", "⋣"⟩, ⟨"NotSubset;", "⊂\u20d2"⟩, ⟨"NotSubsetEqual;", "⊈"⟩,
    ⟨"NotSucceeds;", "⊁"⟩, ⟨"NotSucceedsEqual;", "⪰\u0338"⟩, ⟨"NotSucceedsSlantEqual;", "⋡"⟩,
    ⟨"NotSucceedsTilde;", "≿\u0338"⟩, ⟨"NotSuperset;", "⊃\u20d2"⟩, ⟨"NotSupersetEqual;", "⊉"⟩,
    ⟨"NotTilde;", "≁"⟩, ⟨"NotTildeEqual;", "≄"⟩, ⟨"NotTildeFullEqual;", "≇"⟩,
    ⟨"NotTildeTilde;", "≉"⟩, ⟨"NotVerticalBar;", "∤"⟩, ⟨"Nscr;", "𝒩"⟩, ⟨"Ntilde", "Ñ"⟩,
    ⟨"Ntilde;", "Ñ"⟩, ⟨"Nu;", "Ν"⟩, ⟨"OElig;", "Œ"⟩, ⟨"Oacute", "Ó"⟩, ⟨"Oacute;", "Ó"⟩,
    ⟨"Ocirc", "Ô"⟩, ⟨"Ocirc;", "Ô"⟩, ⟨"Ocy;", "О"⟩, ⟨"Odblac;", "Ő"⟩, ⟨"Ofr;", "𝔒"⟩,
    ⟨"Ograve", "Ò"⟩, ⟨"Ograve;", "Ò"⟩, ⟨"Omacr;", "Ō"⟩, ⟨"Omega;", "Ω"⟩, ⟨"Omicron;", "Ο"⟩,
    ⟨"Oopf;", "𝕆"⟩, ⟨"OpenCurlyDoubleQuote;", "“"⟩, ⟨"OpenCurlyQuote;", "‘"⟩, ⟨"Or;", "⩔"⟩,
    ⟨"Oscr;", "𝒪"⟩, ⟨"Oslash", "Ø"⟩, ⟨"Oslash;", "Ø"⟩, ⟨"Otilde", "Õ"⟩, ⟨"Otilde;", "Õ"⟩,
    ⟨"Otimes;", "⨷"⟩, ⟨"Ouml", "Ö"⟩, ⟨"Ouml;", "Ö"⟩, ⟨"OverBar;", "‾"⟩, ⟨"OverBrace;", "⏞"⟩,
    ⟨"OverBracket;", "⎴"⟩, ⟨"OverParenthesis;", "⏜"⟩]

end PageMarkup.Entity
