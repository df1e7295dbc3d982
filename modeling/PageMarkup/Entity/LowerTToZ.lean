import PageMarkup.Entity.Basic

/-! Entities whose names begin with a letter from t to z, sorted by name. -/

namespace PageMarkup.Entity

def lowerTToZ : List Entity :=
  [⟨"target;", "⌖"⟩, ⟨"tau;", "τ"⟩, ⟨"tbrk;", "⎴"⟩, ⟨"tcaron;", "ť"⟩, ⟨"tcedil;", "ţ"⟩,
    ⟨"tcy;", "т"⟩, ⟨"tdot;", "\u20db"⟩, ⟨"telrec;", "⌕"⟩, ⟨"tfr;", "𝔱"⟩, ⟨"there4;", "∴"⟩,
    ⟨"therefore;", "∴"⟩, ⟨"theta;", "θ"⟩, ⟨"thetasym;", "ϑ"⟩, ⟨"thetav;", "ϑ"⟩,
    ⟨"thickapprox;", "≈"⟩, ⟨"thicksim;", "∼"⟩, ⟨"thinsp;", "\u2009"⟩, ⟨"thkap;", "≈"⟩,
    ⟨"thksim;", "∼"⟩, ⟨"thorn", "þ"⟩, ⟨"thorn;", "þ"⟩, ⟨"tilde;", "˜"⟩, ⟨"times", "×"⟩,
    ⟨"times;", "×"⟩, ⟨"timesb;", "⊠"⟩, ⟨"timesbar;", "⨱"⟩, ⟨"timesd;", "⨰"⟩, ⟨"tint;", "∭"⟩,
    ⟨"toea;", "⤨"⟩, ⟨"top;", "⊤"⟩, ⟨"topbot;", "⌶"⟩, ⟨"topcir;", "⫱"⟩, ⟨"topf;", "𝕥"⟩,
    ⟨"topfork;", "⫚"⟩, ⟨"tosa;", "⤩"⟩, ⟨"tprime;", "‴"⟩, ⟨"trade;", "™"⟩, ⟨"triangle;", "▵"⟩,
    ⟨"triangledown;", "▿"⟩, ⟨"triangleleft;", "◃"⟩, ⟨"trianglelefteq;", "⊴"⟩, ⟨"triangleq;", "≜"⟩,
    ⟨"triangleright;", "▹"⟩, ⟨"trianglerighteq;", "⊵"⟩, ⟨"tridot;", "◬"⟩, ⟨"trie;", "≜"⟩,
    ⟨"triminus;", "⨺"⟩, ⟨"triplus;", "⨹"⟩, ⟨"trisb;", "⧍"⟩, ⟨"tritime;", "⨻"⟩, ⟨"trpezium;", "⏢"⟩,
    ⟨"tscr;", "𝓉"⟩, ⟨"tscy;", "ц"⟩, ⟨"tshcy;", "ћ"⟩, ⟨"tstrok;", "ŧ"⟩, ⟨"twixt;", "≬"⟩,
    ⟨"twoheadleftarrow;", "↞"⟩, ⟨"twoheadrightarrow;", "↠"⟩, ⟨"uArr;", "⇑"⟩, ⟨"uHar;", "⥣"⟩,
    ⟨"uacute", "ú"⟩, ⟨"uacute;", "ú"⟩, ⟨"uarr;", "↑"⟩, ⟨"ubrcy;", "ў"⟩, ⟨"ubreve;", "ŭ"⟩,
    ⟨"ucirc", "û"⟩, ⟨"ucirc;", "û"⟩, ⟨"ucy;", "у"⟩, ⟨"udarr;", "⇅"⟩, ⟨"udblac;", "ű"⟩,
    ⟨"udhar;", "⥮"⟩, ⟨"ufisht;", "⥾"⟩, ⟨"ufr;", "𝔲"⟩, ⟨"ugrave", "ù"⟩, ⟨"ugrave;", "ù"⟩,
    ⟨"uharl;", "↿"⟩, ⟨"uharr;", "↾"⟩, ⟨"uhblk;", "▀"⟩, ⟨"ulcorn;", "⌜"⟩, ⟨"ulcorner;", "⌜"⟩,
    ⟨"ulcrop;", "⌏"⟩, ⟨"ultri;", "◸"⟩, ⟨"umacr;", "ū"⟩, ⟨"uml", "¨"⟩, ⟨"uml;", "¨"⟩,
    ⟨"uogon;", "ų"⟩, ⟨"uopf;", "𝕦"⟩, ⟨"uparrow;", "↑"⟩, ⟨"updownarrow;", "↕"⟩,
    ⟨"upharpoonleft;", "↿"⟩, ⟨"upharpoonright;", "↾"⟩, ⟨"uplus;", "⊎"⟩, ⟨"upsi;", "υ"⟩,
    ⟨"upsih;", "ϒ"⟩, ⟨"upsilon;", "υ"⟩, ⟨"upuparrows;", "⇈"⟩, ⟨"urcorn;", "⌝"⟩,
    ⟨"urcorner;", "⌝"⟩, ⟨"urcrop;", "⌎"⟩, ⟨"uring;", "ů"⟩, ⟨"urtri;", "◹"⟩, ⟨"uscr;", "𝓊"⟩,
    ⟨"utdot;", "⋰"⟩, ⟨"utilde;", "ũ"⟩, ⟨"utri;", "▵"⟩, ⟨"utrif;", "▴"⟩, ⟨"uuarr;", "⇈"⟩,
    ⟨"uuml", "ü"⟩, ⟨"uuml;", "ü"⟩, ⟨"uwangle;", "⦧"⟩, ⟨"vArr;", "⇕"⟩, ⟨"vBar;", "⫨"⟩,
    ⟨"vBarv;", "⫩"⟩, ⟨"vDash;", "⊨"⟩, ⟨"vangrt;", "⦜"⟩, ⟨"varepsilon;", "ϵ"⟩, ⟨"varkappa;", "ϰ"⟩,
    ⟨"varnothing;", "∅"⟩, ⟨"varphi;", "ϕ"⟩, ⟨"varpi;", "ϖ"⟩, ⟨"varpropto;", "∝"⟩, ⟨"varr;", "↕"⟩,
    ⟨"varrho;", "ϱ"⟩, ⟨"varsigma;", "ς"⟩, ⟨"varsubsetneq;", "⊊\ufe00"⟩,
    ⟨"varsubsetneqq;", "⫋\ufe00"⟩, ⟨"varsupsetneq;", "⊋\ufe00"⟩, ⟨"varsupsetneqq;", "⫌\ufe00"⟩,
    ⟨"vartheta;", "ϑ"⟩, ⟨"vartriangleleft;", "⊲"⟩, ⟨"vartriangleright;", "⊳"⟩, ⟨"vcy;", "в"⟩,
    ⟨"vdash;", "⊢"⟩, ⟨"vee;", "∨"⟩, ⟨"veebar;", "⊻"⟩, ⟨"veeeq;", "≚"⟩, ⟨"vellip;", "⋮"⟩,
    ⟨"verbar;", "|"⟩, ⟨"vert;", "|"⟩, ⟨"vfr;", "𝔳"⟩, ⟨"vltri;", "⊲"⟩, ⟨"vnsub;", "⊂\u20d2"⟩,
    ⟨"vnsup;", "⊃\u20d2"⟩, ⟨"vopf;", "𝕧"⟩, ⟨"vprop;", "∝"⟩, ⟨"vrtri;", "⊳"⟩, ⟨"vscr;", "𝓋"⟩,
    ⟨"vsubnE;", "⫋\ufe00"⟩, ⟨"vsubne;", "⊊\ufe00"⟩, ⟨"vsupnE;", "⫌\ufe00"⟩,
    ⟨"vsupne;", "⊋\ufe00"⟩, ⟨"vzigzag;", "⦚"⟩, ⟨"wcirc;", "ŵ"⟩, ⟨"wedbar;", "⩟"⟩, ⟨"wedge;", "∧"⟩,
    ⟨"wedgeq;", "≙"⟩, ⟨"weierp;", "℘"⟩, ⟨"wfr;", "𝔴"⟩, ⟨"wopf;", "𝕨"⟩, ⟨"wp;", "℘"⟩, ⟨"wr;", "≀"⟩,
    ⟨"wreath;", "≀"⟩, ⟨"wscr;", "𝓌"⟩, ⟨"xcap;", "⋂"⟩, ⟨"xcirc;", "◯"⟩, ⟨"xcup;", "⋃"⟩,
    ⟨"xdtri;", "▽"⟩, ⟨"xfr;", "𝔵"⟩, ⟨"xhArr;", "⟺"⟩, ⟨"xharr;", "⟷"⟩, ⟨"xi;", "ξ"⟩,
    ⟨"xlArr;", "⟸"⟩, ⟨"xlarr;", "⟵"⟩, ⟨"xmap;", "⟼"⟩, ⟨"xnis;", "⋻"⟩, ⟨"xodot;", "⨀"⟩,
    ⟨"xopf;", "𝕩"⟩, ⟨"xoplus;", "⨁"⟩, ⟨"xotime;", "⨂"⟩, ⟨"xrArr;", "⟹"⟩, ⟨"xrarr;", "⟶"⟩,
    ⟨"xscr;", "𝓍"⟩, ⟨"xsqcup;", "⨆"⟩, ⟨"xuplus;", "⨄"⟩, ⟨"xutri;", "△"⟩, ⟨"xvee;", "⋁"⟩,
    ⟨"xwedge;", "⋀"⟩, ⟨"yacute", "ý"⟩, ⟨"yacute;", "ý"⟩, ⟨"yacy;", "я"⟩, ⟨"ycirc;", "ŷ"⟩,
    ⟨"ycy;", "ы"⟩, ⟨"yen", "¥"⟩, ⟨"yen;", "¥"⟩, ⟨"yfr;", "𝔶"⟩, ⟨"yicy;", "ї"⟩, ⟨"yopf;", "𝕪"⟩,
    ⟨"yscr;", "𝓎"⟩, ⟨"yucy;", "ю"⟩, ⟨"yuml", "ÿ"⟩, ⟨"yuml;", "ÿ"⟩, ⟨"zacute;", "ź"⟩,
    ⟨"zcaron;", "ž"⟩, ⟨"zcy;", "з"⟩, ⟨"zdot;", "ż"⟩, ⟨"zeetrf;", "ℨ"⟩, ⟨"zeta;", "ζ"⟩,
    ⟨"zfr;", "𝔷"⟩, ⟨"zhcy;", "ж"⟩, ⟨"zigrarr;", "⇝"⟩, ⟨"zopf;", "𝕫"⟩, ⟨"zscr;", "𝓏"⟩,
    ⟨"zwj;", "\u200d"⟩, ⟨"zwnj;", "\u200c"⟩]

end PageMarkup.Entity
