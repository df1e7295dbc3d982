import PageMarkup.Entity.Basic

/-! Entities whose names begin with a letter from i to m, sorted by name. -/

namespace PageMarkup.Entity

def lowerIToM : List Entity :=
  [⟨"iacute", "í"⟩, ⟨"iacute;", "í"⟩, ⟨"ic;", "\u2063"⟩, ⟨"icirc", "î"⟩, ⟨"icirc;", "î"⟩,
    ⟨"icy;", "и"⟩, ⟨"iecy;", "е"⟩, ⟨"iexcl", "¡"⟩, ⟨"iexcl;", "¡"⟩, ⟨"iff;", "⇔"⟩, ⟨"ifr;", "𝔦"⟩,
    ⟨"igrave", "ì"⟩, ⟨"igrave;", "ì"⟩, ⟨"ii;", "ⅈ"⟩, ⟨"iiiint;", "⨌"⟩, ⟨"iiint;", "∭"⟩,
    ⟨"iinfin;", "⧜"⟩, ⟨"iiota;", "℩"⟩, ⟨"ijlig;", "ĳ"⟩, ⟨"imacr;", "ī"⟩, ⟨"image;", "ℑ"⟩,
    ⟨"imagline;", "ℐ"⟩, ⟨"imagpart;", "ℑ"⟩, ⟨"imath;", "ı"⟩, ⟨"imof;", "⊷"⟩, ⟨"imped;", "Ƶ"⟩,
    ⟨"in;", "∈"⟩, ⟨"incare;", "℅"⟩, ⟨"infin;", "∞"⟩, ⟨"infintie;", "⧝"⟩, ⟨"inodot;", "ı"⟩,
    ⟨"int;", "∫"⟩, ⟨"intcal;", "⊺"⟩, ⟨"integers;", "ℤ"⟩, ⟨"intercal;", "⊺"⟩, ⟨"intlarhk;", "⨗"⟩,
    ⟨"intprod;", "⨼"⟩, ⟨"iocy;", "ё"⟩, ⟨"iogon;", "į"⟩, ⟨"iopf;", "𝕚"⟩, ⟨"iota;", "ι"⟩,
    ⟨"iprod;", "⨼"⟩, ⟨"iquest", "¿"⟩, ⟨"iquest;", "¿"⟩, ⟨"iscr;", "𝒾"⟩, ⟨"isin;", "∈"⟩,
    ⟨"isinE;", "⋹"⟩, ⟨"isindot;", "⋵"⟩, ⟨"isins;", "⋴"⟩, ⟨"isinsv;", "⋳"⟩, ⟨"isinv;", "∈"⟩,
    ⟨"it;", "\u2062"⟩, ⟨"itilde;", "ĩ"⟩, ⟨"iukcy;", "і"⟩, ⟨"iuml", "ï"⟩, ⟨"iuml;", "ï"⟩,
    ⟨"jcirc;", "ĵ"⟩, ⟨"jcy;", "й"⟩, ⟨"jfr;", "𝔧"⟩, ⟨"jmath;", "ȷ"⟩, ⟨"jopf;", "𝕛"⟩,
    ⟨"jscr;", "𝒿"⟩, ⟨"jsercy;", "ј"⟩, ⟨"jukcy;", "є"⟩, ⟨"kappa;", "κ"⟩, ⟨"kappav;", "ϰ"⟩,
    ⟨"kcedil;", "ķ"⟩, ⟨"kcy;", "к"⟩, ⟨"kfr;", "𝔨"⟩, ⟨"kgreen;", "ĸ"⟩, ⟨"khcy;", "х"⟩,
    ⟨"kjcy;", "ќ"⟩, ⟨"kopf;", "𝕜"⟩, ⟨"kscr;", "𝓀"⟩, ⟨"lAarr;", "⇚"⟩, ⟨"lArr;", "⇐"⟩,
    ⟨"lAtail;", "⤛"⟩, ⟨"lBarr;", "⤎"⟩, ⟨"lE;", "≦"⟩, ⟨"lEg;", "⪋"⟩, ⟨"lHar;", "⥢"⟩,
    ⟨"lacute;", "ĺ"⟩, ⟨"laemptyv;", "⦴"⟩, ⟨"lagran;", "ℒ"⟩, ⟨"lambda;", "λ"⟩, ⟨"lang;", "⟨"⟩,
    ⟨"langd;", "⦑"⟩, ⟨"langle;", "⟨"⟩, ⟨"lap;", "⪅"⟩, ⟨"laquo", "«"⟩, ⟨"laquo;", "«"⟩,
    ⟨"larr;", "←"⟩, ⟨"larrb;", "⇤"⟩, ⟨"larrbfs;", "⤟"⟩, ⟨"larrfs;", "⤝"⟩, ⟨"larrhk;", "↩"⟩,
    ⟨"larrlp;", "↫"⟩, ⟨"larrpl;", "⤹"⟩, ⟨"larrsim;", "⥳"⟩, ⟨"larrtl;", "↢"⟩, ⟨"lat;", "⪫"⟩,
    ⟨"latail;", "⤙"⟩, ⟨"late;", "⪭"⟩, ⟨"lates;", "⪭\ufe00"⟩, ⟨"lbarr;", "⤌"⟩, ⟨"lbbrk;", "❲"⟩,
    ⟨"lbrace;", "\x7b"⟩, ⟨"lbrack;", "["⟩, ⟨"lbrke;", "⦋"⟩, ⟨"lbrksld;", "⦏"⟩, ⟨"lbrkslu;", "⦍"⟩,
    ⟨"lcaron;", "ľ"⟩, ⟨"lcedil;", "ļ"⟩, ⟨"lceil;", "⌈"⟩, ⟨"lcub;", "\x7b"⟩, ⟨"lcy;", "л"⟩,
    ⟨"ldca;", "⤶"⟩, ⟨"ldquo;", "“"⟩, ⟨"ldquor;", "„"⟩, ⟨"ldrdhar;", "⥧"⟩, ⟨"ldrushar;", "⥋"⟩,
    ⟨"ldsh;", "↲"⟩, ⟨"le;", "≤"⟩, ⟨"leftarrow;", "←"⟩, ⟨"leftarrowtail;", "↢"⟩,
    ⟨"leftharpoondown;", "↽"⟩, ⟨"leftharpoonup;", "↼"⟩, ⟨"leftleftarrows;", "⇇"⟩,
    ⟨"leftrightarrow;", "↔"⟩, ⟨"leftrightarrows;", "⇆"⟩, ⟨"leftrightharpoons;", "⇋"⟩,
    ⟨"leftrightsquigarrow;", "↭"⟩, ⟨"leftthreetimes;", "⋋"⟩, ⟨"leg;", "⋚"⟩, ⟨"leq;", "≤"⟩,
    ⟨"leqq;", "≦"⟩, ⟨"leqslant;", "⩽"⟩, ⟨"les;", "⩽"⟩, ⟨"lescc;", "⪨"⟩, ⟨"lesdot;", "⩿"⟩,
    ⟨"lesdoto;", "⪁"⟩, ⟨"lesdotor;", "⪃"⟩, ⟨"lesg;", "⋚\ufe00"⟩, ⟨"lesges;", "⪓"⟩,
    ⟨"lessapprox;", "⪅"⟩, ⟨"lessdot;", "⋖"⟩, ⟨"lesseqgtr;", "⋚"⟩, ⟨"lesseqqgtr;", "⪋"⟩,
    ⟨"lessgtr;", "≶"⟩, ⟨"lesssim;", "≲"⟩, ⟨"lfisht;", "⥼"⟩, ⟨"lfloor;", "⌊"⟩, ⟨"lfr;", "𝔩"⟩,
    ⟨"lg;", "≶"⟩, ⟨"lgE;", "⪑"⟩, ⟨"lhard;", "↽"⟩, ⟨"lharu;", "↼"⟩, ⟨"lharul;", "⥪"⟩,
    ⟨"lhblk;", "▄"⟩, ⟨"ljcy;", "љ"⟩, ⟨"ll;", "≪"⟩, ⟨"llarr;", "⇇"⟩, ⟨"llcorner;", "⌞"⟩,
    ⟨"llhard;", "⥫"⟩, ⟨"lltri;", "◺"⟩, ⟨"lmidot;", "ŀ"⟩, ⟨"lmoust;", "⎰"⟩, ⟨"lmoustache;", "⎰"⟩,
    ⟨"lnE;", "≨"⟩, ⟨"lnap;", "⪉"⟩, ⟨"lnapprox;", "⪉"⟩, ⟨"lne;", "⪇"⟩, ⟨"lneq;", "⪇"⟩,
    ⟨"lneqq;", "≨"⟩, ⟨"lnsim;", "⋦"⟩, ⟨"loang;", "⟬"⟩, ⟨"loarr;", "⇽"⟩, ⟨"lobrk;", "⟦"⟩,
    ⟨"longleftarrow;", "⟵"⟩, ⟨"longleftrightarrow;", "⟷"⟩, ⟨"longmapsto;", "⟼"⟩,
    ⟨"longrightarrow;", "⟶"⟩, ⟨"looparrowleft;", "↫"⟩, ⟨"looparrowright;", "↬"⟩, ⟨"lopar;", "⦅"⟩,
    ⟨"lopf;", "𝕝"⟩, ⟨"loplus;", "⨭"⟩, ⟨"lotimes;", "⨴"⟩, ⟨"lowast;", "∗"⟩, ⟨"lowbar;", "_"⟩,
    ⟨"loz;", "◊"⟩, ⟨"lozenge;", "◊"⟩, ⟨"lozf;", "⧫"⟩, ⟨"lpar;", "("⟩, ⟨"lparlt;", "⦓"⟩,
    ⟨"lrarr;", "⇆"⟩, ⟨"lrcorner;", "⌟"⟩, ⟨"lrhar;", "⇋"⟩, ⟨"lrhard;", "⥭"⟩, ⟨"lrm;", "\u200e"⟩,
    ⟨"lrtri;", "⊿"⟩, ⟨"lsaquo;", "‹"⟩, ⟨"lscr;", "𝓁"⟩, ⟨"lsh;", "↰"⟩, ⟨"lsim;", "≲"⟩,
    ⟨"lsime;", "⪍"⟩, ⟨"lsimg;", "⪏"⟩, ⟨"lsqb;", "["⟩, ⟨"lsquo;", "‘"⟩, ⟨"lsquor;", "‚"⟩,
    ⟨"lstrok;", "ł"⟩, ⟨"lt", "<"⟩, ⟨"lt;", "<"⟩, ⟨"ltcc;", "⪦"⟩, ⟨"ltcir;", "⩹"⟩, ⟨"ltdot;", "⋖"⟩,
    ⟨"lthree;", "⋋"⟩, ⟨"ltimes;", "⋉"⟩, ⟨"ltlarr;", "⥶"⟩, ⟨"ltquest;", "⩻"⟩, ⟨"ltrPar;", "⦖"⟩,
    ⟨"ltri;", "◃"⟩, ⟨"ltrie;", "⊴"⟩, ⟨"ltrif;", "◂"⟩, ⟨"lurdshar;", "⥊"⟩, ⟨"luruhar;", "⥦"⟩,
    ⟨"lvertneqq;", "≨\ufe00"⟩, ⟨"lvnE;", "≨\ufe00"⟩, ⟨"mDDot;", "∺"⟩, ⟨"macr", "¯"⟩,
    ⟨"macr;", "¯"⟩, ⟨"male;", "♂"⟩, ⟨"malt;", "✠"⟩, ⟨"maltese;", "✠"⟩, ⟨"map;", "↦"⟩,
    ⟨"mapsto;", "↦"⟩, ⟨"mapstodown;", "↧"⟩, ⟨"mapstoleft;", "↤"⟩, ⟨"mapstoup;", "↥"⟩,
    ⟨"marker;", "▮"⟩, ⟨"mcomma;", "⨩"⟩, ⟨"mcy;", "м"⟩, ⟨"mdash;", "—"⟩, ⟨"measuredangle;", "∡"⟩,
    ⟨"mfr;", "𝔪"⟩, ⟨"mho;", "℧"⟩, ⟨"micro", "µ"⟩, ⟨"micro;", "µ"⟩, ⟨"mid;", "∣"⟩,
    ⟨"midast;", "*"⟩, ⟨"midcir;", "⫰"⟩, ⟨"middot", "·"⟩, ⟨"middot;", "·"⟩, ⟨"minus;", "−"⟩,
    ⟨"minusb;", "⊟"⟩, ⟨"minusd;", "∸"⟩, ⟨"minusdu;", "⨪"⟩, ⟨"mlcp;", "⫛"⟩, ⟨"mldr;", "…"⟩,
    ⟨"mnplus;", "∓"⟩, ⟨"models;", "⊧"⟩, ⟨"mopf;", "𝕞"⟩, ⟨"mp;", "∓"⟩, ⟨"mscr;", "𝓂"⟩,
    ⟨"mstpos;", "∾"⟩, ⟨"mu;", "μ"⟩, ⟨"multimap;", "⊸"⟩, ⟨"mumap;", "⊸"⟩]

end PageMarkup.Entity
